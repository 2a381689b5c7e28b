import Mathlib.Data.List.Basic
import Mathlib.Data.List.TakeWhile
import ApiSurface.Files.Path
import ApiSurface.Proofs.Text.Cutting

/-!
# Paths that are put together and taken apart

The steps of a path behind its start come from the pieces between its separators, where empty
pieces and dots make none. Trimming a text takes away only such pieces (`pieces_trimStart`,
`pieces_trimEnd`), and dropping names drops as many of the others (`pieces_dropNames`). So a path
as seen from a directory, joined to the directory again, has the steps of the path
(`steps_join_of_below?`).
-/

namespace ApiSurface.Path

/-! ### Names -/

/-- Text that is a name where it stands between separators. -/
structure IsName (s : String) : Prop where
  step? : step? s = some (.name s)
  noSlash : '/' ∉ s.toList

theorem IsName.ne_here {s : String} (h : IsName s) : s ≠ "." := by
  rintro rfl
  exact absurd h.step? (by decide)

theorem IsName.toList_ne_nil {s : String} (h : IsName s) : s.toList ≠ [] := by
  intro hnil
  obtain rfl : s = "" := String.toList_eq_nil_iff.mp hnil
  exact absurd h.step? (by decide)

theorem isName_of_notDots {s : String} (hslash : '/' ∉ s.toList) (h : ∃ c ∈ s.toList, c ≠ '.') :
    IsName s := by
  obtain ⟨c, hc, hdot⟩ := h
  have hne : ∀ t : String, (∀ d ∈ t.toList, d = '.') → s ≠ t := by
    rintro t ht rfl
    exact hdot (ht c hc)
  refine ⟨?_, hslash⟩
  rw [step?, if_neg (not_or.mpr ⟨hne "" (by simp), hne "." (by simp)⟩), if_neg (hne ".." (by simp))]

/-- The names on a path that was put together from them. -/
theorem names_intercalate {l : List String} (hne : l ≠ []) (h : ∀ s ∈ l, IsName s) :
    names ("/".intercalate l) = l := by
  have hparts : parts ("/".intercalate l) = l :=
    Text.splitString_intercalate hne fun s hs => (h s hs).noSlash
  have hstart : start ("/".intercalate l) = [] := by
    obtain ⟨s, r, rfl⟩ := List.exists_cons_of_ne_nil hne
    obtain ⟨c, w, hs⟩ := List.exists_cons_of_ne_nil (h s List.mem_cons_self).toList_ne_nil
    have hc : c ≠ '/' := fun hc =>
      (h s List.mem_cons_self).noSlash (hs ▸ hc ▸ List.mem_cons_self)
    have habsolute : isAbsolute ("/".intercalate (s :: r)) = false := by
      rw [isAbsolute, Text.toList_intercalate]
      cases r <;> simp [Text.join, hs, hc]
    rw [start, habsolute, hparts]
    simp [(h s List.mem_cons_self).ne_here]
  have hsteps : l.filterMap step? = l.map Step.name := by
    rw [← List.filterMap_eq_map]
    exact List.filterMap_congr fun s hs => (h s hs).step?
  rw [names, steps, hstart, hparts, hsteps, List.nil_append, List.filterMap_map]
  exact List.filterMap_some

theorem splitName_append {stem extension : String} (hstem : stem.toList ≠ [])
    (h : '.' ∉ extension.toList) :
    splitName (stem ++ "." ++ extension) = (stem, some extension) := by
  have hlist : (stem ++ "." ++ extension).toList = stem.toList ++ '.' :: extension.toList := by simp
  obtain ⟨c, w, hc⟩ := List.exists_cons_of_ne_nil hstem
  rw [splitName, hlist, Text.splitLast_append h, hc]
  simp [← hc]

/-! ### Pieces -/

/-- The pieces of a text between separators that make steps wherever they stand. -/
def pieces (l : List Char) : List (List Char) :=
  (Text.splitOn '/' l).filter fun p => ¬ (p = [] ∨ p = ['.'])

/-- The step that a piece makes. -/
def stepOf (piece : List Char) : Step :=
  if piece = ['.', '.'] then .up else .name (String.ofList piece)

theorem filterMap_step?_parts (path : String) :
    (parts path).filterMap step? = (pieces path.toList).map stepOf := by
  rw [parts, Text.splitString, List.filterMap_map, pieces, ← List.filterMap_eq_map,
    List.filterMap_filter]
  refine List.filterMap_congr fun p _ => ?_
  have hempty : String.ofList p = "" ↔ p = [] := String.ofList_eq_empty_iff
  have hhere : String.ofList p = "." ↔ p = ['.'] := by rw [← String.toList_inj]; simp
  have hup : String.ofList p = ".." ↔ p = ['.', '.'] := by rw [← String.toList_inj]; simp
  simp only [Function.comp_apply, step?, stepOf, hempty, hhere, hup]
  by_cases h : p = [] ∨ p = ['.']
  · simp [h]
  · simp only [h, if_false, not_false_eq_true, decide_true, if_true]
    split <;> rfl

theorem steps_eq (path : String) : steps path = start path ++ (pieces path.toList).map stepOf := by
  rw [steps, filterMap_step?_parts]

theorem pieces_append_sep (a b : List Char) : pieces (a ++ '/' :: b) = pieces a ++ pieces b := by
  rw [pieces, Text.splitOn_append_sep, List.filter_append]
  rfl

/-- Text without separators is one piece, if any. -/
theorem pieces_of_notMem {l : List Char} (h : '/' ∉ l) :
    pieces l = if l = [] ∨ l = ['.'] then [] else [l] := by
  rw [pieces, Text.splitOn_eq_singleton h]
  by_cases hl : l = [] ∨ l = ['.']
  · rw [if_pos hl, List.filter_cons_of_neg (by simp [hl]), List.filter_nil]
  · rw [if_neg hl, List.filter_cons_of_pos (by simpa using hl), List.filter_nil]

theorem pieces_reverse (l : List Char) :
    pieces l.reverse = ((pieces l).map List.reverse).reverse := by
  have hfilter : (fun p : List Char => decide ¬(p = [] ∨ p = ['.'])) ∘ List.reverse
      = fun p => decide ¬(p = [] ∨ p = ['.']) := by
    funext p
    simp [List.reverse_eq_iff]
  rw [pieces, pieces, Text.splitOn_reverse, List.filter_reverse, List.filter_map, hfilter]

theorem pieces_trimStart (l : List Char) : pieces (trimStart l) = pieces l := by
  fun_induction trimStart l with
  | case1 r ih => rw [ih]; exact (pieces_append_sep [] r).symm
  | case2 r ih => rw [ih]; exact (pieces_append_sep ['.'] r).symm
  | case3 => rfl
  | case4 => rfl

theorem pieces_trimEnd (l : List Char) : pieces (trimEnd l) = pieces l := by
  rw [trimEnd, pieces_reverse, pieces_trimStart, pieces_reverse, List.map_reverse, List.map_map,
    List.reverse_reverse]
  exact List.map_id'' List.reverse_reverse _

/-- What is left of a text in front begins with a piece, if anything is left. -/
theorem trimStart_cases (l : List Char) : trimStart l = [] ∨
    ∃ a more, trimStart l = a ++ more ∧ pieces a = [a] ∧ '/' ∉ a ∧
      (more = [] ∨ ∃ b, more = '/' :: b) := by
  fun_induction trimStart l with
  | case1 r ih => exact ih
  | case2 r ih => exact ih
  | case3 => exact .inl rfl
  | case4 l hsep hhere hdot =>
    by_cases hl : '/' ∈ l
    · obtain ⟨a, b, rfl, ha⟩ := List.eq_append_cons_of_mem hl
      refine .inr ⟨a, '/' :: b, rfl, ?_, ha, .inr ⟨b, rfl⟩⟩
      rw [pieces_of_notMem ha, if_neg]
      rintro (rfl | rfl)
      · exact hsep b rfl
      · exact hhere b rfl
    · refine or_iff_not_imp_left.mpr fun hnil => ⟨l, [], (List.append_nil l).symm, ?_, hl, .inl rfl⟩
      rw [pieces_of_notMem hl, if_neg (not_or.mpr ⟨hnil, hdot⟩)]

theorem pieces_eq_nil_iff {l : List Char} : pieces l = [] ↔ trimStart l = [] := by
  rw [← pieces_trimStart]
  obtain h | ⟨a, more, h, ha, hsep, rfl | ⟨b, rfl⟩⟩ := trimStart_cases l
  · simp [h, pieces, Text.splitOn]
  · have hne : a ≠ [] := by rintro rfl; exact absurd ha (by decide)
    rw [h, List.append_nil, ha]
    simp [hne]
  · rw [h, pieces_append_sep, ha]
    simp

theorem pieces_dropWhile (l : List Char) :
    pieces ((trimStart l).dropWhile (· ≠ '/')) = (pieces l).tail := by
  rw [← pieces_trimStart l]
  obtain h | ⟨a, more, h, ha, hsep, hmore⟩ := trimStart_cases l
  · rw [h]
    rfl
  · have hpiece : ∀ c ∈ a, decide (c ≠ '/') = true := by
      intro c hc
      refine decide_eq_true ?_
      rintro rfl
      exact hsep hc
    rw [h, List.dropWhile_append_of_pos hpiece]
    obtain rfl | ⟨b, rfl⟩ := hmore
    · rw [List.append_nil, ha]
      rfl
    · rw [pieces_append_sep, ha]
      exact pieces_append_sep [] b

theorem pieces_dropNames (n : Nat) (l : List Char) :
    pieces (dropNames n l) = (pieces l).drop n := by
  induction n generalizing l with
  | zero => rfl
  | succ n ih => rw [dropNames, ih, pieces_dropWhile, List.drop_tail]

/-! ### Joining -/

variable {dir path rel : String}

theorem isAbsolute_iff : isAbsolute path ↔ ∃ l, path.toList = '/' :: l := by
  rw [isAbsolute, beq_iff_eq, List.head?_eq_some_iff]

theorem join_of_isAbsolute (h : isAbsolute rel) : join dir rel = rel := if_pos (.inl h)

/-- What is joined to a directory stands there behind a separator. -/
theorem toList_join (hdir : dir ≠ "") (hrel : isAbsolute rel = false) :
    ∃ d, (dir.toList = d ∨ dir.toList = d ++ ['/']) ∧
      (join dir rel).toList = d ++ '/' :: rel.toList := by
  rw [join, if_neg (by simp [hdir, hrel])]
  split
  · next hlast =>
    obtain ⟨d, hd⟩ := List.getLast?_eq_some_iff.mp hlast
    exact ⟨d, .inr hd, by simp [hd]⟩
  · exact ⟨dir.toList, .inl rfl, by simp⟩

theorem pieces_eq_of_sep {l d : List Char} (h : l = d ∨ l = d ++ ['/']) : pieces l = pieces d := by
  obtain rfl | rfl := h
  · rfl
  · rw [pieces_append_sep]
    exact List.append_nil _

section Start

variable {d more : List Char}

theorem isAbsolute_eq_of_toList (hdir : dir.toList = d ∨ dir.toList = d ++ ['/']) (hne : dir ≠ "")
    (hpath : path.toList = d ++ '/' :: more) : isAbsolute path = isAbsolute dir := by
  have hnonempty : dir.toList ≠ [] := mt String.toList_eq_nil_iff.mp hne
  rw [isAbsolute, isAbsolute, hpath]
  cases d with
  | nil => obtain heq | heq := hdir <;> simp_all
  | cons c d => obtain heq | heq := hdir <;> simp [heq]

/-- More text behind a separator does not change where a path starts. -/
theorem start_eq_of_toList (hdir : dir.toList = d ∨ dir.toList = d ++ ['/']) (hne : dir ≠ "")
    (hpath : path.toList = d ++ '/' :: more) : start path = start dir := by
  obtain ⟨piece, rest, hsplit⟩ := List.exists_cons_of_ne_nil (Text.splitOn_ne_nil '/' d)
  have hhead : (parts path).head? = (parts dir).head? := by
    rw [parts, parts, Text.splitString, Text.splitString, hpath, Text.splitOn_append_sep, hsplit]
    obtain heq | heq := hdir
    · rw [heq, hsplit]; rfl
    · rw [heq, Text.splitOn_append_sep, hsplit]; rfl
  rw [start, start, isAbsolute_eq_of_toList hdir hne hpath, hhead]

end Start

theorem ne_empty_of_isAbsolute (h : isAbsolute dir) : dir ≠ "" := by
  rintro rfl
  exact absurd h (by decide)

theorem steps_join (hdir : dir ≠ "") (hrel : isAbsolute rel = false) :
    steps (join dir rel) = steps dir ++ (pieces rel.toList).map stepOf := by
  obtain ⟨d, hd, hjoin⟩ := toList_join hdir hrel
  rw [steps_eq, steps_eq, start_eq_of_toList hd hdir hjoin, hjoin, pieces_append_sep,
    pieces_eq_of_sep hd, List.map_append, List.append_assoc]

theorem isAbsolute_join (h : isAbsolute dir) : isAbsolute (join dir rel) := by
  cases hrel : isAbsolute rel with
  | true => rwa [join_of_isAbsolute hrel]
  | false =>
    have hdir := ne_empty_of_isAbsolute h
    obtain ⟨d, hd, hjoin⟩ := toList_join hdir hrel
    rwa [isAbsolute_eq_of_toList hd hdir hjoin]

/-! ### What is seen from a directory -/

theorem head?_trimStart (l : List Char) : (trimStart l).head? ≠ some '/' := by
  fun_induction trimStart l with
  | case1 r ih => exact ih
  | case2 r ih => exact ih
  | case3 => simp
  | case4 l hsep => 
    cases l with
    | nil => simp
    | cons c r => intro h; simp at h; exact hsep r (by rw [h])

theorem trimStart_suffix (l : List Char) : trimStart l <:+ l := by
  fun_induction trimStart l with
  | case1 r ih => exact ih.trans (List.suffix_cons _ _)
  | case2 r ih => exact ih.trans ((List.suffix_cons _ _).trans (List.suffix_cons _ _))
  | case3 => exact List.nil_suffix
  | case4 => exact List.suffix_rfl

theorem trimEnd_prefix (l : List Char) : trimEnd l <+: l := by
  have h := trimStart_suffix l.reverse
  rwa [← List.reverse_prefix, List.reverse_reverse] at h

theorem isAbsolute_trim (l : List Char) :
    isAbsolute (String.ofList (trimEnd (trimStart l))) = false := by
  obtain ⟨r, hr⟩ := trimEnd_prefix (trimStart l)
  have hhead := head?_trimStart l
  rw [isAbsolute, String.toList_ofList, beq_eq_false_iff_ne]
  cases hend : trimEnd (trimStart l) with
  | nil => simp
  | cons c m =>
    rw [← hr, hend] at hhead
    simpa using hhead

theorem below?_of_ne_nil (h : steps dir ≠ []) : below? dir path =
    if steps dir <+: steps path then
      some (String.ofList
        (trimEnd (trimStart (dropNames (pieces dir.toList).length path.toList))))
    else none := by
  simp only [below?, filterMap_step?_parts, List.length_map, h, if_false,
    List.isPrefixOf_iff_prefix]

/-- Only a path that begins at the root has the root among its steps. -/
theorem isAbsolute_of_root_mem (h : .root ∈ steps path) : isAbsolute path := by
  have hpieces : Step.root ∉ (pieces path.toList).map stepOf := by
    rintro hmem
    obtain ⟨p, -, hp⟩ := List.mem_map.mp hmem
    rw [stepOf] at hp
    split at hp <;> simp at hp
  rw [steps_eq, List.mem_append, or_iff_left hpieces, start] at h
  by_contra habsolute
  rw [if_neg habsolute] at h
  split at h <;> simp at h

/-- Only absolute paths lie below an absolute directory. -/
theorem isAbsolute_of_prefix (hdir : isAbsolute dir) (h : steps dir <+: steps path) :
    isAbsolute path := by
  have hroot : Step.root ∈ steps dir := by simp [steps, start, hdir]
  exact isAbsolute_of_root_mem (h.subset hroot)

/-- A path as seen from an absolute directory leads from there to where the path leads. -/
theorem steps_join_of_below? (hdir : isAbsolute dir) (h : below? dir path = some rel) :
    isAbsolute path ∧ steps (join dir rel) = steps path := by
  have hstart : start dir = [.root] := if_pos hdir
  rw [below?_of_ne_nil (by simp [steps, hstart]), Option.ite_none_right_eq_some] at h
  obtain ⟨hbelow, hrel⟩ := h
  obtain rfl := Option.some.inj hrel
  have habsolute := isAbsolute_of_prefix hdir hbelow
  have hpath : start path = [.root] := if_pos habsolute
  obtain ⟨more, hmore⟩ := hbelow
  rw [steps_eq, steps_eq, hstart, hpath, List.append_assoc] at hmore
  have hpieces := List.append_cancel_left hmore
  refine ⟨habsolute, ?_⟩
  rw [steps_join (ne_empty_of_isAbsolute hdir) (isAbsolute_trim _), steps_eq dir, steps_eq path,
    String.toList_ofList, pieces_trimEnd, pieces_trimStart, pieces_dropNames, hstart, hpath,
    List.map_drop, ← hpieces, ← List.length_map, List.drop_left, List.append_assoc]

/-! ### Names below a directory -/

/-- A text is not trimmed in front where its first piece makes a step. -/
theorem trimStart_eq_self {l : List Char}
    (h : ∀ p ∈ (Text.splitOn '/' l).head?, p ≠ [] ∧ p ≠ ['.']) : trimStart l = l := by
  fun_cases trimStart l with
  | case1 r =>
    have hsplit : Text.splitOn '/' ('/' :: r) = [] :: Text.splitOn '/' r :=
      Text.splitOn_append_cons List.not_mem_nil
    exact absurd rfl (h [] (by rw [hsplit]; rfl)).1
  | case2 r =>
    have hdot : '/' ∉ ['.'] := by decide
    have hsplit : Text.splitOn '/' ('.' :: '/' :: r) = ['.'] :: Text.splitOn '/' r :=
      Text.splitOn_append_cons hdot
    exact absurd rfl (h ['.'] (by rw [hsplit]; rfl)).2
  | case3 => exact absurd rfl (h ['.'] rfl).2
  | case4 => rfl

theorem trimEnd_eq_self {l : List Char}
    (h : ∀ p ∈ (Text.splitOn '/' l).getLast?, p ≠ [] ∧ p ≠ ['.']) : trimEnd l = l := by
  rw [trimEnd, trimStart_eq_self, List.reverse_reverse]
  intro p hp
  rw [Text.splitOn_reverse, List.head?_reverse, List.getLast?_map, Option.mem_def,
    Option.map_eq_some_iff] at hp
  obtain ⟨q, hq, rfl⟩ := hp
  simpa [List.reverse_eq_iff] using h q hq

theorem trimStart_append_sep (l more : List Char) : trimStart (l ++ '/' :: more)
    = if trimStart l = [] then trimStart more else trimStart l ++ '/' :: more := by
  have hl := trimStart_cases l
  fun_induction trimStart l with
  | case1 r ih => exact ih hl
  | case2 r ih => exact ih hl
  | case3 => rfl
  | case4 l =>
    obtain rfl | ⟨a, b, rfl, ha, hsep, hb⟩ := hl
    · rfl
    · have hne : a ≠ [] ∧ a ≠ ['.'] := by
        constructor <;> rintro rfl <;> exact absurd ha (by decide)
      rw [if_neg (by simp [hne.1])]
      refine trimStart_eq_self fun p hp => ?_
      obtain rfl | ⟨b, rfl⟩ := hb
      · rw [List.append_nil, Text.splitOn_append_cons hsep] at hp
        exact Option.some.inj hp ▸ hne
      · rw [List.append_assoc, List.cons_append, Text.splitOn_append_cons hsep] at hp
        exact Option.some.inj hp ▸ hne

/-- As many names as the text in front of the separator has are dropped with it. -/
theorem trimStart_dropNames {d : List Char} {n : Nat} (h : (pieces d).length = n)
    (more : List Char) : trimStart (dropNames n (d ++ '/' :: more)) = trimStart more := by
  induction n generalizing d with
  | zero =>
    rw [dropNames, trimStart_append_sep,
      if_pos (pieces_eq_nil_iff.mp (List.length_eq_zero_iff.mp h))]
  | succ n ih =>
    have hd : trimStart d ≠ [] := by
      intro hnil
      rw [pieces_eq_nil_iff.mpr hnil] at h
      exact absurd h (by simp)
    have hdrop : (trimStart d ++ '/' :: more).dropWhile (· ≠ '/')
        = (trimStart d).dropWhile (· ≠ '/') ++ '/' :: more := by
      rw [List.dropWhile_append]
      split
      · next hempty => rw [List.isEmpty_iff.mp hempty]; rfl
      · rfl
    have htail : (pieces ((trimStart d).dropWhile (· ≠ '/'))).length = n := by
      rw [pieces_dropWhile, List.length_tail, h, Nat.add_sub_cancel]
    rw [dropNames, trimStart_append_sep, if_neg hd, hdrop, ih htail]

variable {n t : String} {names : List String}

theorem IsName.isAbsolute_eq_false (h : IsName n) : isAbsolute n = false := by
  rw [Bool.eq_false_iff]
  intro habsolute
  obtain ⟨l, hl⟩ := isAbsolute_iff.mp habsolute
  exact h.noSlash (hl ▸ List.mem_cons_self)

theorem IsName.parts_eq (h : IsName n) : parts n = [n] := by
  rw [parts, Text.splitString, Text.splitOn_eq_singleton h.noSlash, List.map_singleton,
    String.ofList_toList]

theorem IsName.steps_eq (h : IsName n) : steps n = [.name n] := by
  rw [steps, start, h.isAbsolute_eq_false, h.parts_eq]
  simp [h.ne_here, h.step?]

/-- A name that is joined to a directory is one more step. -/
theorem steps_join_name (dir : String) (h : IsName n) :
    steps (join dir n) = steps dir ++ [.name n] := by
  by_cases hdir : dir = ""
  · have hjoin : join dir n = n := if_pos (.inr hdir)
    rw [hjoin, hdir, h.steps_eq]
    rfl
  · rw [steps_join hdir h.isAbsolute_eq_false, ← filterMap_step?_parts, h.parts_eq]
    simp [h.step?]

/-- Only the empty path has no steps. -/
theorem steps_ne_nil (hdir : dir ≠ "") : steps dir ≠ [] := by
  intro hnil
  rw [Path.steps_eq, List.append_eq_nil_iff, List.map_eq_nil_iff, pieces_eq_nil_iff] at hnil
  obtain ⟨hstart, htrim⟩ := hnil
  have habsolute : ¬ isAbsolute dir := fun h => by simp [start, h] at hstart
  have hhere : (parts dir).head? ≠ some "." := fun h => by simp [start, habsolute, h] at hstart
  obtain ⟨c, r, hlist⟩ := List.exists_cons_of_ne_nil (mt String.toList_eq_nil_iff.mp hdir)
  have hc : c ≠ '/' := fun heq => habsolute (isAbsolute_iff.mpr ⟨r, heq ▸ hlist⟩)
  obtain ⟨p, ps, hr⟩ := List.exists_cons_of_ne_nil (Text.splitOn_ne_nil '/' r)
  have hsplit : Text.splitOn '/' dir.toList = (c :: p) :: ps := by
    rw [hlist, Text.splitOn, hr]
    exact if_neg hc
  rw [trimStart_eq_self, hlist] at htrim
  · exact absurd htrim (List.cons_ne_nil c r)
  · rw [hsplit]
    intro q hq
    obtain rfl := Option.some.inj hq
    refine ⟨List.cons_ne_nil c p, fun heq => hhere ?_⟩
    rw [parts, Text.splitString, hsplit, heq]
    rfl

/-- What stands behind the separator is what is seen from the directory. -/
theorem relativeTo_of_toList {d : List Char} (hdir : dir.toList = d ∨ dir.toList = d ++ ['/'])
    (hne : dir ≠ "") (hpath : path.toList = d ++ '/' :: t.toList)
    (hstart : trimStart t.toList = t.toList) (hend : trimEnd t.toList = t.toList) :
    relativeTo dir path = t := by
  have hprefix : steps dir <+: steps path := by
    rw [Path.steps_eq, Path.steps_eq, start_eq_of_toList hdir hne hpath, hpath, pieces_append_sep,
      pieces_eq_of_sep hdir, List.map_append, ← List.append_assoc]
    exact List.prefix_append _ _
  rw [relativeTo, below?_of_ne_nil (steps_ne_nil hne), if_pos hprefix, Option.getD_some, hpath,
    trimStart_dropNames (congrArg List.length (pieces_eq_of_sep hdir)).symm, hstart, hend,
    String.ofList_toList]

/-- From the empty path, a path is seen as it is written. -/
theorem relativeTo_empty (hend : trimEnd path.toList = path.toList) :
    relativeTo "" path = path := by
  have hnames : ((parts "").filterMap step?).length = 0 := by decide
  have hsteps : steps "" = [] := by decide
  rw [relativeTo, below?, hnames, hsteps]
  simp [dropNames, hend]

/-- Joined names are not trimmed. -/
theorem trim_intercalate (hne : names ≠ []) (h : ∀ n ∈ names, IsName n) :
    trimStart ("/".intercalate names).toList = ("/".intercalate names).toList ∧
    trimEnd ("/".intercalate names).toList = ("/".intercalate names).toList := by
  have hsplit : Text.splitOn '/' ("/".intercalate names).toList = names.map String.toList :=
    Text.splitOn_intercalate hne fun n hn => (h n hn).noSlash
  have hpiece : ∀ p ∈ names.map String.toList, p ≠ [] ∧ p ≠ ['.'] := by
    intro p hp
    obtain ⟨n, hn, rfl⟩ := List.mem_map.mp hp
    refine ⟨(h n hn).toList_ne_nil, fun heq => (h n hn).ne_here ?_⟩
    rw [← String.toList_inj, heq]
    rfl
  constructor
  · exact trimStart_eq_self fun p hp => hpiece p (List.mem_of_mem_head? (hsplit ▸ hp))
  · exact trimEnd_eq_self fun p hp => hpiece p (List.mem_of_mem_getLast? (hsplit ▸ hp))

/-! ### The order of paths -/

instance : Std.TransOrd Step :=
  inferInstanceAs <| Std.TransCmp <| compareLex (compareOn Step.rank) (compareOn Step.text)

instance : Std.LawfulEqOrd Step where
  eq_of_compare {a b} h := by
    change Step.compare a b = .eq at h
    simp only [Step.compare, Ordering.then_eq_eq, Std.compare_eq_iff_eq] at h
    cases a <;> cases b <;> simp_all [Step.rank, Step.text]

instance : Std.TransCmp compare := inferInstanceAs <| Std.TransCmp <| compareOn steps

theorem ne_of_compare_lt {a b : String} (h : compare a b = .lt) : a ≠ b := by
  rintro rfl
  have hself : compare a a = .eq := Std.ReflCmp.compare_self
  rw [hself] at h
  cases h

theorem steps_eq_of_compare {a b : String} (h : compare a b = .eq) : steps a = steps b :=
  Std.LawfulEqOrd.eq_of_compare h

end ApiSurface.Path
