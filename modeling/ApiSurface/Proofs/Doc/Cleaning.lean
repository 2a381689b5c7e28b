import ApiSurface.Proofs.Doc.Lines

/-!
# Cleaned docstrings

Cleaning changes the layout of a docstring and nothing else (`isCleaned_clean`). What is cut off a
line in front is measured in bytes, as the least indentation of all lines behind the first. No line
is indented by less, so a cut inside its indentation leaves the text of the line (`dedent_eq`), and
where the cut would go through a character of several bytes, the line loses all of its indentation.
Lines that are indented with spaces can be cut anywhere. They lose the same number of spaces each,
and so keep their places relative to one another.
-/

namespace ApiSurface.Doc

open ApiSurface.Text (allBlank allBlank_iff byteSize dropBytes dropBytes_append dropBytes_byteSize
  dropTailWhile isBlank join lines lines_join notMem_of_mem_lines suffix_of_dropBytes trim trimEnd
  trimEnd_append_of_ne_nil trimEnd_eq_self_iff trimStart trim_eq_nil_iff)

variable {l m : Line} {ls rest : List Line} {n : Nat} {raw : List Char}

/-! ### What is kept -/

/-- The lines with text in them. -/
def filled (ls : List Line) : List Line := ls.filter fun l => !allBlank l

/-- The line is indented with spaces. -/
def IsSpaced (l : Line) : Prop := ∀ c ∈ l.takeWhile isBlank, c = ' '

instance (l : Line) : Decidable (IsSpaced l) :=
  inferInstanceAs (Decidable (∀ c ∈ l.takeWhile isBlank, c = ' '))

/-- The lines with text that a docstring has behind its first line, each with the line of the
cleaned docstring that holds its text. Those are the last lines with text on both sides. -/
def laterLines (raw out : List Char) : List (Line × Line) :=
  let later := filled (lines raw).tail
  let cleaned := filled (lines out)
  later.zip (cleaned.drop (cleaned.length - later.length))

/-- A docstring is cleaned: it has the same text, and all that is left of the layout is how far the
lines are indented relative to one another. -/
structure IsCleaned (raw out : List Char) : Prop where
  /-- No text is lost. -/
  text : (filled (lines out)).map trim = (filled (lines raw)).map trim
  /-- The lines make up the whole of the text. -/
  join_lines : join ['\n'] (lines out) = out
  first : ∀ l ∈ (lines out).head?, allBlank l = false
  last : ∀ l ∈ (lines out).getLast?, allBlank l = false
  trimEnd_eq : ∀ l ∈ lines out, trimEnd l = l
  map_fst_laterLines : (laterLines raw out).map Prod.fst = filled (lines raw).tail
  /-- Lines that were indented with spaces keep their places relative to one another. -/
  layout : ∀ p ∈ laterLines raw out, ∀ q ∈ laterLines raw out, IsSpaced p.1 → IsSpaced q.1 →
    (indentOf p.2 : Int) - indentOf q.2 = indentOf p.1 - indentOf q.1
  /-- Behind the first line there is one that is not indented, if there is any with text. -/
  margin : laterLines raw out ≠ [] → ∃ p ∈ laterLines raw out, indentOf p.2 = 0

theorem mem_filled_iff : l ∈ filled ls ↔ l ∈ ls ∧ allBlank l = false := by
  simp [filled]

theorem filled_cons (l : Line) (ls : List Line) : filled (l :: ls) = filled [l] ++ filled ls :=
  List.filter_append [l] ls

theorem filled_singleton (hl : ¬ allBlank l) : filled [l] = [l] :=
  List.filter_cons_of_pos (by simp [hl])

theorem filled_singleton_of_allBlank (hl : allBlank l) : filled [l] = [] :=
  List.filter_cons_of_neg (by simp [hl])

theorem isPhrase_trim (hl : allBlank l = false) (hline : '\n' ∉ l) : IsPhrase (trim l) where
  ne_nil := mt trim_eq_nil_iff.mp (Bool.eq_false_iff.mp hl)
  trim_eq := Text.trim_trim l
  oneLine := mt Text.mem_of_mem_trim hline

/-! ### One line -/

/-- A cut inside the indentation leaves the text of the line. -/
theorem dedent_eq (hl : allBlank l = false) (hn : n ≤ indentOf l) :
    dedent n l = (dropBytes n (l.takeWhile isBlank)).getD [] ++ trim l := by
  have hne : trimEnd (trimStart l) ≠ [] := mt trim_eq_nil_iff.mp (Bool.eq_false_iff.mp hl)
  have hcut : dropBytes n l = (dropBytes n (l.takeWhile isBlank)).map (· ++ trimStart l) := by
    conv_lhs => rw [← List.takeWhile_append_dropWhile (p := isBlank) (l := l)]
    exact dropBytes_append hn _
  rw [dedent, if_neg (by simp [hl]), hcut]
  cases dropBytes n (l.takeWhile isBlank) with
  | none => rfl
  | some r => exact trimEnd_append_of_ne_nil r hne

theorem allBlank_indent (l : Line) (n : Nat) :
    allBlank ((dropBytes n (l.takeWhile isBlank)).getD []) := by
  rw [allBlank_iff]
  intro c hc
  cases hr : dropBytes n (l.takeWhile isBlank) with
  | none =>
    rw [hr] at hc
    cases hc
  | some r =>
    rw [hr] at hc
    exact List.mem_takeWhile_imp ((suffix_of_dropBytes hr).subset hc)

section Line

variable (hl : allBlank l = false) (hline : '\n' ∉ l) (hn : n ≤ indentOf l)

include hl hline hn in
theorem trim_dedent : trim (dedent n l) = trim l := by
  rw [dedent_eq hl hn]
  exact (isPhrase_trim hl hline).trim_append (allBlank_indent l n)

include hl hline hn in
theorem indentOf_dedent :
    indentOf (dedent n l) = byteSize ((dropBytes n (l.takeWhile isBlank)).getD []) := by
  rw [dedent_eq hl hn]
  exact (isPhrase_trim hl hline).indentOf_append (allBlank_indent l n)

theorem byteSize_replicate_space (k : Nat) : byteSize (List.replicate k ' ') = k := by
  induction k with
  | zero => rfl
  | succ k ih =>
    rw [List.replicate_succ, byteSize, ih]
    exact Nat.add_comm 1 k

include hl hline hn in
/-- Of spaces, as many are cut off as is asked for. -/
theorem indentOf_dedent_of_isSpaced (hspaced : IsSpaced l) :
    indentOf (dedent n l) + n = indentOf l := by
  obtain ⟨k, hk⟩ : ∃ k, l.takeWhile isBlank = List.replicate k ' ' :=
    ⟨_, List.eq_replicate_of_mem hspaced⟩
  have hindent : indentOf l = k := by rw [indentOf, hk, byteSize_replicate_space]
  have hcut : dropBytes n (List.replicate k ' ') = some (List.replicate (k - n) ' ') := by
    have hdrop := dropBytes_byteSize (List.replicate n ' ') (List.replicate (k - n) ' ')
    rwa [byteSize_replicate_space, List.replicate_append_replicate,
      Nat.add_sub_cancel' (hindent ▸ hn)] at hdrop
  rw [indentOf_dedent hl hline hn, hk, hcut, Option.getD_some, byteSize_replicate_space]
  omega

include hl hline in
/-- A line that is indented by what is cut off loses all of its indentation. -/
theorem indentOf_dedent_self : indentOf (dedent (indentOf l) l) = 0 := by
  have hcut := dropBytes_byteSize (l.takeWhile isBlank) []
  rw [List.append_nil] at hcut
  rw [indentOf_dedent hl hline (Nat.le_refl _), indentOf, hcut]
  rfl

end Line

theorem allBlank_dedent (hline : '\n' ∉ l) (hn : allBlank l = false → n ≤ indentOf l) :
    allBlank (dedent n l) = allBlank l := by
  cases hl : allBlank l with
  | true =>
    rw [dedent, if_pos hl]
    rfl
  | false =>
    rw [Bool.eq_false_iff, ne_eq, ← trim_eq_nil_iff, trim_dedent hl hline (hn hl)]
    exact (isPhrase_trim hl hline).ne_nil

theorem trimEnd_dedent (n : Nat) (l : Line) : trimEnd (dedent n l) = dedent n l := by
  rw [dedent]
  split
  · rfl
  · exact Text.trimEnd_trimEnd _

theorem mem_of_mem_dedent {c : Char} (h : c ∈ dedent n l) : c ∈ l := by
  rw [dedent] at h
  split at h
  · cases h
  · have hcut := (List.rdropWhile_prefix isBlank _).subset h
    cases hr : dropBytes n l with
    | none =>
      rw [hr] at hcut
      exact (List.dropWhile_suffix isBlank).subset hcut
    | some r =>
      rw [hr] at hcut
      exact (suffix_of_dropBytes hr).subset hcut

/-! ### All lines -/

theorem commonIndent_le (h : l ∈ filled rest) : commonIndent rest ≤ indentOf l :=
  List.min?_getD_le_of_mem (List.mem_map_of_mem h)

theorem exists_indentOf_eq_commonIndent (h : filled rest ≠ []) :
    ∃ l ∈ filled rest, indentOf l = commonIndent rest := by
  obtain ⟨k, hk⟩ : ∃ k, ((filled rest).map indentOf).min? = some k := by
    rw [← Option.isSome_iff_exists, List.isSome_min?_iff]
    exact mt List.map_eq_nil_iff.mp h
  obtain ⟨l, hl, heq⟩ := List.mem_map.mp (List.min?_mem hk)
  refine ⟨l, hl, heq.trans ?_⟩
  rw [commonIndent, ← filled, hk]
  rfl

theorem filled_map_dedent (hline : ∀ l ∈ rest, '\n' ∉ l) :
    filled (rest.map (dedent (commonIndent rest)))
      = (filled rest).map (dedent (commonIndent rest)) := by
  rw [filled, List.filter_map, filled]
  congr 1
  refine List.filter_congr fun l hl => ?_
  have hblank := allBlank_dedent (hline l hl) fun hfilled =>
    commonIndent_le (mem_filled_iff.mpr ⟨hl, hfilled⟩)
  rw [Function.comp_apply, hblank]

/-- A cleaned line is one line and does not end with white space. -/
theorem tidy_of_mem_cleanedLines (hline : ∀ l ∈ ls, '\n' ∉ l) (h : l ∈ cleanedLines ls) :
    '\n' ∉ l ∧ trimEnd l = l := by
  cases ls with
  | nil => cases h
  | cons first rest =>
    obtain rfl | h := List.mem_cons.mp h
    · exact ⟨mt Text.mem_of_mem_trim (hline first List.mem_cons_self),
        Text.trimEnd_trimEnd (trimStart first)⟩
    · obtain ⟨m, hm, rfl⟩ := List.mem_map.mp h
      exact ⟨mt mem_of_mem_dedent (hline m (List.mem_cons_of_mem first hm)), trimEnd_dedent _ m⟩

/-! ### Empty lines at the ends -/

theorem dropEmptyEnds_subset (ls : List Line) : dropEmptyEnds ls ⊆ ls := fun _ h =>
  (List.dropWhile_suffix _).subset ((List.rdropWhile_prefix _ _).subset h)

theorem filled_dropWhile (ls : List Line) : filled (ls.dropWhile List.isEmpty) = filled ls := by
  induction ls with
  | nil => rfl
  | cons l ls ih =>
    rw [List.dropWhile_cons]
    split
    · next hempty =>
      rw [ih, List.isEmpty_iff.mp hempty]
      rfl
    · rfl

theorem filled_dropEmptyEnds (ls : List Line) : filled (dropEmptyEnds ls) = filled ls := by
  have hreverse : ∀ ls : List Line, filled ls.reverse = (filled ls).reverse := fun ls =>
    List.filter_reverse
  rw [dropEmptyEnds, dropTailWhile, hreverse, filled_dropWhile, hreverse, List.reverse_reverse,
    filled_dropWhile]

theorem ne_nil_of_head?_dropWhile (h : l ∈ (ls.dropWhile List.isEmpty).head?) : l ≠ [] := by
  have hhead := List.head?_dropWhile_not List.isEmpty ls
  rw [h] at hhead
  exact List.isEmpty_eq_false_iff.mp hhead

theorem ne_nil_of_head?_dropEmptyEnds (h : l ∈ (dropEmptyEnds ls).head?) : l ≠ [] := by
  obtain ⟨t, ht⟩ := List.rdropWhile_prefix List.isEmpty (ls.dropWhile List.isEmpty)
  have hhead : l ∈ (ls.dropWhile List.isEmpty).head? := by
    rw [← ht, List.head?_append]
    exact Option.mem_def.mpr (Option.or_eq_some_iff.mpr (.inl h))
  exact ne_nil_of_head?_dropWhile hhead

theorem ne_nil_of_getLast?_dropEmptyEnds (h : l ∈ (dropEmptyEnds ls).getLast?) : l ≠ [] := by
  rw [dropEmptyEnds, dropTailWhile, List.getLast?_reverse] at h
  exact ne_nil_of_head?_dropWhile h

theorem tidy_of_mem_dropEmptyEnds (h : l ∈ dropEmptyEnds (cleanedLines (lines raw))) :
    '\n' ∉ l ∧ trimEnd l = l :=
  tidy_of_mem_cleanedLines (fun _ hm => notMem_of_mem_lines hm) (dropEmptyEnds_subset _ h)

theorem lines_clean (raw : List Char) :
    lines (clean raw) = dropEmptyEnds (cleanedLines (lines raw)) := by
  refine lines_join (fun l hl => (tidy_of_mem_dropEmptyEnds hl).1) (fun l hl hreturn => ?_)
    fun hlast => ?_
  · -- a carriage return is white space
    have hblank := trimEnd_eq_self_iff.mp (tidy_of_mem_dropEmptyEnds hl).2 _ hreturn
    revert hblank
    decide
  · exact ne_nil_of_getLast?_dropEmptyEnds hlast rfl

theorem filled_lines_clean {first : Line} (h : lines raw = first :: rest) :
    filled (lines (clean raw))
      = filled [trim first] ++ (filled rest).map (dedent (commonIndent rest)) := by
  have hline : ∀ l ∈ rest, '\n' ∉ l := fun l hl =>
    notMem_of_mem_lines (h ▸ List.mem_cons_of_mem first hl)
  rw [lines_clean, filled_dropEmptyEnds, h, cleanedLines, filled_cons, filled_map_dedent hline]

/-- Behind the first line each line with text is cleaned by itself. -/
theorem laterLines_clean (raw : List Char) :
    laterLines raw (clean raw)
      = (filled (lines raw).tail).map fun l => (l, dedent (commonIndent (lines raw).tail) l) := by
  cases h : lines raw with
  | nil =>
    rw [laterLines, h]
    rfl
  | cons first rest =>
    rw [laterLines, filled_lines_clean h, h, List.tail_cons, List.length_append, List.length_map,
      Nat.add_sub_cancel, List.drop_left, List.map_prod_left_eq_zip]

theorem mem_laterLines_clean_iff {p : Line × Line} :
    p ∈ laterLines raw (clean raw) ↔
      p.1 ∈ filled (lines raw).tail ∧ p.2 = dedent (commonIndent (lines raw).tail) p.1 := by
  rw [laterLines_clean, List.mem_map]
  constructor
  · rintro ⟨l, hl, rfl⟩
    exact ⟨hl, rfl⟩
  · rintro ⟨hl, heq⟩
    exact ⟨p.1, hl, Prod.ext rfl heq.symm⟩

theorem allBlank_of_mem_lines_clean (hl : l ∈ lines (clean raw)) (hne : l ≠ []) :
    allBlank l = false := by
  rw [lines_clean] at hl
  exact Text.allBlank_eq_false_of_trimEnd_eq (tidy_of_mem_dropEmptyEnds hl).2 hne

theorem notMem_of_mem_tail (h : l ∈ filled (lines raw).tail) : '\n' ∉ l :=
  notMem_of_mem_lines (List.mem_of_mem_tail (mem_filled_iff.mp h).1)

theorem map_trim_filled_lines_clean (raw : List Char) :
    (filled (lines (clean raw))).map trim = (filled (lines raw)).map trim := by
  cases h : lines raw with
  | nil =>
    rw [lines_clean, h]
    rfl
  | cons first rest =>
    have hrest : ((filled rest).map (dedent (commonIndent rest))).map trim
        = (filled rest).map trim := by
      rw [List.map_map]
      refine List.map_congr_left fun l hl => ?_
      have hline : '\n' ∉ l :=
        notMem_of_mem_lines (h ▸ List.mem_cons_of_mem first (mem_filled_iff.mp hl).1)
      exact trim_dedent (mem_filled_iff.mp hl).2 hline (commonIndent_le hl)
    have hfirst : (filled [trim first]).map trim = (filled [first]).map trim := by
      by_cases hblank : allBlank first
      · rw [trim_eq_nil_iff.mpr hblank, filled_singleton_of_allBlank hblank]
        rfl
      · have htrim : ¬ allBlank (trim first) := by
          rwa [← trim_eq_nil_iff, Text.trim_trim, trim_eq_nil_iff]
        rw [filled_singleton htrim, filled_singleton hblank, List.map_singleton,
          List.map_singleton, Text.trim_trim]
    rw [filled_lines_clean h, filled_cons first, List.map_append, List.map_append, hfirst, hrest]

/-- Each line that is indented with spaces loses as many of them. -/
theorem indentOf_add_commonIndent {p : Line × Line} (hp : p ∈ laterLines raw (clean raw))
    (hspaced : IsSpaced p.1) : indentOf p.2 + commonIndent (lines raw).tail = indentOf p.1 := by
  obtain ⟨hmem, heq⟩ := mem_laterLines_clean_iff.mp hp
  rw [heq]
  exact indentOf_dedent_of_isSpaced (mem_filled_iff.mp hmem).2 (notMem_of_mem_tail hmem)
    (commonIndent_le hmem) hspaced

theorem exists_indentOf_eq_zero (hne : filled (lines raw).tail ≠ []) :
    ∃ p ∈ laterLines raw (clean raw), indentOf p.2 = 0 := by
  obtain ⟨l, hl, hleast⟩ := exists_indentOf_eq_commonIndent hne
  refine ⟨(l, dedent (commonIndent (lines raw).tail) l),
    mem_laterLines_clean_iff.mpr ⟨hl, rfl⟩, ?_⟩
  rw [← hleast]
  exact indentOf_dedent_self (mem_filled_iff.mp hl).2 (notMem_of_mem_tail hl)

/-- **Cleaning keeps the text.** For every docstring, the lines with text are the same but for white
space at their ends, and no blank line is left at the ends of the docstring. Lines that are indented
with spaces keep their places relative to one another, whatever the other lines are indented
with. -/
theorem isCleaned_clean (raw : List Char) : IsCleaned raw (clean raw) where
  text := map_trim_filled_lines_clean raw
  join_lines := by
    rw [lines_clean, clean]
  first := by
    intro l hl
    have hne : l ≠ [] := ne_nil_of_head?_dropEmptyEnds (lines_clean raw ▸ hl)
    exact allBlank_of_mem_lines_clean (List.mem_of_head? hl) hne
  last := by
    intro l hl
    have hne : l ≠ [] := ne_nil_of_getLast?_dropEmptyEnds (lines_clean raw ▸ hl)
    exact allBlank_of_mem_lines_clean (List.mem_of_getLast? hl) hne
  trimEnd_eq := by
    intro l hl
    rw [lines_clean] at hl
    exact (tidy_of_mem_dropEmptyEnds hl).2
  map_fst_laterLines := by
    rw [laterLines_clean, List.map_map]
    exact List.map_id _
  layout := by
    intro p hp q hq hspaced hspaced'
    -- no line is indented by less than what is cut off, so that no difference is cut short
    have hcut := indentOf_add_commonIndent hp hspaced
    have hcut' := indentOf_add_commonIndent hq hspaced'
    omega
  margin := by
    intro hne
    rw [laterLines_clean, ne_eq, List.map_eq_nil_iff] at hne
    exact exists_indentOf_eq_zero hne

example : clean "Summary line.\n\n    Longer text\n      indented more\n    ".toList
    = "Summary line.\n\nLonger text\n  indented more".toList := by decide

end ApiSurface.Doc
