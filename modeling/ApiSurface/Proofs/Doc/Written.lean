import ApiSurface.Proofs.Doc.Reading

/-!
# Docstrings that are written and read

A docstring that says something (`Content`) can be written in each of the three usual styles, with
the parameters in any order and laid out in any way (`Content.written`). What is read from it is
what was written (`parse_written`), if the names are ASCII identifiers: other names are not read, even
where they are identifiers in the source (`parse_written_ne`).
-/

namespace ApiSurface.Doc

open ApiSurface.Routing (isIdentifier)
open ApiSurface.Text (allBlank join trim trimEnd trimStart)

variable {l text : Line} {ls a b : List Line} {p q : Progress} {f : Format} {y : Layout}

/-- What a docstring is to say; the parameters in the order of their names. -/
structure Content where
  summary : Line
  description : List Line
  params : List (String × Line)
  returns : Option Line

namespace Content

/-- The parts have text, in lines that have no meaning by themselves, and the description begins and
ends with characters that are not white space. -/
structure IsProper (c : Content) : Prop where
  summary : IsPhrase c.summary
  description_line : ∀ l ∈ c.description, '\n' ∉ l ∧ l.getLast? ≠ some '\r'
  description_plain : ∀ l ∈ c.description, IsPlain l
  description_head : ∀ l ∈ c.description.head?, l ≠ [] ∧ trimStart l = l
  description_last : ∀ l ∈ c.description.getLast?, l ≠ [] ∧ trimEnd l = l
  params_sorted : KeyedList.IsSorted c.params
  params : ∀ e ∈ c.params, IsPhrase e.2 ∧ IsPlain e.2
  returns : ∀ t ∈ c.returns, IsPhrase t ∧ IsPlain t

/-- The docstring that says it. -/
def docstring (c : Content) : Docstring where
  summary := some (String.ofList c.summary)
  description :=
    if c.description = [] then none else some (String.ofList (join ['\n'] c.description))
  params := c.params.map fun e => (e.1, String.ofList e.2)
  returns := c.returns.map String.ofList

/-- The parts below the summary, with the parameters in the given order. -/
def parts (c : Content) (f : Format) (y : Layout) (order : List (String × Line)) :
    List (List Line) :=
  [c.description, if order = [] then [] else f.paramLines y order,
    c.returns.elim [] (f.returnLines y)]

end Content

/-- A part with empty lines in front of it, if there is one. -/
def Layout.part (y : Layout) (ls : List Line) : List Line :=
  if ls = [] then [] else List.replicate y.gap [] ++ ls

namespace Content

/-- The lines of a docstring. -/
def lines (c : Content) (f : Format) (y : Layout) (order : List (String × Line)) : List Line :=
  c.summary :: (c.parts f y order).flatMap y.part

/-- The text of a docstring. -/
def written (c : Content) (f : Format) (y : Layout) (order : List (String × Line)) : List Char :=
  join ['\n'] (c.lines f y order)

end Content

/-! ### Lines that are found again -/

/-- The lines can be told apart again when they are joined. -/
structure AreLines (ls : List Line) : Prop where
  line : ∀ l ∈ ls, '\n' ∉ l ∧ l.getLast? ≠ some '\r'
  last_ne_nil : ls.getLast? ≠ some []

namespace AreLines

theorem nil : AreLines [] := ⟨nofun, nofun⟩

theorem append (ha : AreLines a) (hb : AreLines b) : AreLines (a ++ b) where
  line l hl := (List.mem_append.mp hl).elim (ha.line l) (hb.line l)
  last_ne_nil := by
    rcases eq_or_ne b [] with rfl | hne
    · rw [List.append_nil]
      exact ha.last_ne_nil
    · rw [List.getLast?_append_of_ne_nil _ hne]
      exact hb.last_ne_nil

theorem of_forall (h : ∀ l ∈ ls, l ≠ [] ∧ '\n' ∉ l ∧ l.getLast? ≠ some '\r') : AreLines ls where
  line l hl := (h l hl).2
  last_ne_nil hnil := (h [] (List.mem_of_getLast? hnil)).1 rfl

theorem part (h : AreLines ls) : AreLines (y.part ls) := by
  rw [Layout.part]
  split
  · exact nil
  · next hne =>
    refine ⟨fun l hl => ?_, ?_⟩
    · rcases List.mem_append.mp hl with hl | hl
      · rw [List.eq_of_mem_replicate hl]
        exact ⟨List.not_mem_nil, nofun⟩
      · exact h.line l hl
    · rw [List.getLast?_append_of_ne_nil _ hne]
      exact h.last_ne_nil

theorem flatMap_part {parts : List (List Line)} (h : ∀ ls ∈ parts, AreLines ls) :
    AreLines (parts.flatMap y.part) := by
  induction parts with
  | nil => exact nil
  | cons ls parts ih =>
    rw [List.forall_mem_cons] at h
    exact h.1.part.append (ih h.2)

theorem paramLines {es : List (String × Line)} (h : ∀ e ∈ es, IsEntry e.1 e.2) :
    AreLines (f.paramLines y es) := by
  have hheading : ∀ l ∈ f.heading, l ≠ [] ∧ '\n' ∉ l ∧ l.getLast? ≠ some '\r' := by
    cases f <;> decide
  refine of_forall fun l hl => ?_
  rcases List.mem_append.mp hl with hl | hl
  · exact hheading l hl
  · obtain ⟨e, he, hl⟩ := List.mem_flatMap.mp hl
    have hentry := h e he
    have hline := isPhrase_entryLine hentry.isIdentifier List.not_mem_nil hentry.isPhrase
    cases f with
    | headed =>
      rw [List.mem_singleton.mp hl]
      exact hline.isLine_append y.indent_oneLine
    | underlined =>
      rcases List.mem_pair.mp hl with rfl | rfl
      · exact (isPhrase_entryLine hentry.isIdentifier (by decide) (y.type_isPhrase e.1)).isLine
      · exact hentry.isPhrase.isLine_append y.indent_oneLine
    | fields =>
      rw [List.mem_singleton.mp hl]
      exact (isPhrase_paramField hentry.isIdentifier hentry.isPhrase).isLine

theorem returnLines (h : IsPhrase text) : AreLines (f.returnLines y text) := by
  have hline := h.isLine_append y.resultIndent_oneLine
  refine of_forall fun l hl => ?_
  cases f with
  | headed =>
    rcases List.mem_pair.mp hl with rfl | rfl
    · decide
    · exact hline
  | underlined =>
    rcases List.mem_cons.mp hl with rfl | hl
    · decide
    rcases List.mem_pair.mp hl with rfl | rfl
    · decide
    · exact hline
  | fields =>
    rw [List.mem_singleton.mp hl]
    exact (isPhrase_returnsField h).isLine

end AreLines

namespace Content

variable {c : Content} {order : List (String × Line)}

/-- What is written in a part can be read back. -/
structure IsReadable (c : Content) (order : List (String × Line)) : Prop where
  isProper : c.IsProper
  entries : ∀ e ∈ order, IsEntry e.1 e.2
  perm : order.Perm c.params

theorem IsReadable.of_perm (h : c.IsProper) (hnames : ∀ e ∈ c.params, isIdentifier e.1.toList)
    (hperm : order.Perm c.params) : c.IsReadable order where
  isProper := h
  entries e he :=
    have hmem := hperm.mem_iff.mp he
    ⟨hnames e hmem, (h.params e hmem).1, (h.params e hmem).2⟩
  perm := hperm

theorem areLines_lines (h : c.IsReadable order) : AreLines (c.lines f y order) := by
  have hsummary : AreLines [c.summary] := .of_forall fun l hl => by
    rw [List.mem_singleton.mp hl]
    exact h.isProper.summary.isLine
  have hdescription : AreLines c.description :=
    ⟨h.isProper.description_line, fun hnil => (h.isProper.description_last [] hnil).1 rfl⟩
  refine hsummary.append (.flatMap_part fun ls hls => ?_)
  simp only [parts, List.mem_cons, List.not_mem_nil, or_false] at hls
  rcases hls with rfl | rfl | rfl
  · exact hdescription
  · split
    · exact .nil
    · exact .paramLines h.entries
  · cases hreturns : c.returns with
    | none => exact .nil
    | some t => exact .returnLines (h.isProper.returns t hreturns).1

/-! ### What is read -/

/-- What is in front of a part makes no difference. -/
theorem exists_reads_part {d : List Line} {ps ps' : List (String × Line)} {t t' : Line}
    (h : Has p d ps t) (hread : ∀ p', Has p' d ps t → ∃ q, Reads p' ls q ∧ Has q d ps' t') :
    ∃ q, Reads p (y.part ls) q ∧ Has q d ps' t' := by
  rw [Layout.part]
  split
  · next hls => exact hls ▸ hread p h
  · obtain ⟨p', hgap, hp'⟩ := exists_reads_replicate h y.gap
    obtain ⟨q, hq, hhas⟩ := hread p' hp'
    exact ⟨q, hgap.append hq, hhas⟩

theorem reads_description_part (h : c.IsProper) :
    ∃ q, Reads .start (y.part c.description) q ∧ Has q (y.part c.description) [] [] := by
  refine ⟨_, reads_description rfl fun l hl => ?_, ⟨0, (List.append_nil _).symm⟩, rfl, rfl⟩
  rw [Layout.part] at hl
  split at hl
  · cases hl
  · rcases List.mem_append.mp hl with hl | hl
    · rw [List.eq_of_mem_replicate hl]
      exact isPlain_nil
    · exact h.description_plain l hl

variable {d : List Line}

theorem exists_reads_params (h : c.IsReadable order) (hp : Has p d [] []) :
    ∃ q, Reads p (if order = [] then [] else f.paramLines y order) q ∧ Has q d c.params [] := by
  have hsorted := KeyedList.foldl_insert_eq h.isProper.params_sorted h.perm
  have hkeys : ((p.params ++ order).map Prod.fst).Nodup := by
    rw [hp.params]
    exact (h.perm.map Prod.fst).nodup_iff.mpr (KeyedList.nodup_keys h.isProper.params_sorted)
  split
  · next hnil =>
    subst hnil
    exact ⟨p, .nil p, hp.description, hp.params.trans hsorted, hp.returns⟩
  · next hne =>
    obtain ⟨hdescription, hparams, hreturns⟩ :=
      beginParams_collects (f.base y) (p.enter f.paramSection) order
    obtain ⟨n, hn⟩ := hp.description
    refine ⟨_, reads_paramLines hne h.entries hkeys, ⟨n, hdescription.trans hn⟩, ?_,
      hreturns.trans hp.returns⟩
    rw [hparams, ← hsorted, ← hp.params]
    rfl

theorem exists_reads_returns {ps : List (String × Line)} (h : c.IsProper) (hp : Has p d ps []) :
    ∃ q, Reads p (c.returns.elim [] (f.returnLines y)) q ∧ Has q d ps (c.returns.getD []) := by
  cases hreturns : c.returns with
  | none => exact ⟨p, .nil p, hp⟩
  | some t =>
    have ht := h.returns t hreturns
    refine ⟨_, reads_returnLines ht.1 ht.2 p, hp.description, hp.params, ?_⟩
    exact (congrArg (Progress.extend · t) hp.returns).trans ht.1.extend_nil

/-- The three parts, one after another. -/
theorem exists_reads_parts (h : c.IsReadable order) :
    ∃ q, Reads .start ((c.parts f y order).flatMap y.part) q ∧
      Has q (y.part c.description) c.params (c.returns.getD []) := by
  obtain ⟨p₁, hread₁, hp₁⟩ := reads_description_part (y := y) h.isProper
  obtain ⟨p₂, hread₂, hp₂⟩ := exists_reads_part (y := y) hp₁ fun _ =>
    exists_reads_params (f := f) (y := y) h
  obtain ⟨p₃, hread₃, hp₃⟩ := exists_reads_part (y := y) hp₂ fun _ =>
    exists_reads_returns (f := f) (y := y) h.isProper
  refine ⟨p₃, ?_, hp₃⟩
  simp only [parts, List.flatMap_cons, List.flatMap_nil, List.append_nil]
  exact hread₁.append (hread₂.append hread₃)

/-! ### What is collected -/

/-- Empty lines around the description are trimmed. -/
theorem trim_join_description (h : c.IsProper) (n : Nat) :
    trim (join ['\n'] (y.part c.description ++ List.replicate n []))
      = join ['\n'] c.description := by
  have hempty (n : Nat) : ∀ l ∈ List.replicate n ([] : Line), allBlank l := fun l hl => by
    rw [List.eq_of_mem_replicate hl]
    rfl
  rw [Text.trim_join_append (hempty n), Layout.part]
  split
  · next hnil => rw [hnil]; rfl
  · rw [Text.trim_join_blank_append (hempty y.gap),
      Text.trim_join_eq_self h.description_head h.description_last]

theorem join_eq_nil_iff (h : c.IsProper) :
    join ['\n'] c.description = [] ↔ c.description = [] := by
  constructor
  · intro hjoin
    by_contra hne
    obtain ⟨l, ls, hls⟩ := List.exists_cons_of_ne_nil hne
    have hl := (h.description_head l (by rw [hls]; rfl)).1
    have hhead : (join ['\n'] (l :: ls)).head? = l.head? := Text.head?_join hl
    rw [← hls, hjoin] at hhead
    exact hl (List.head?_eq_none_iff.mp hhead.symm)
  · intro hnil
    rw [hnil]
    rfl

theorem finish_eq (h : c.IsProper)
    (hq : Has q (y.part c.description) c.params (c.returns.getD [])) :
    q.finish c.summary = c.docstring := by
  obtain ⟨n, hn⟩ := hq.description
  have hreturns : (if c.returns.getD [] = [] then none
      else some (String.ofList (c.returns.getD []))) = c.returns.map String.ofList := by
    cases hc : c.returns with
    | none => rfl
    | some t => exact if_neg (h.returns t hc).1.ne_nil
  simp only [Progress.finish, docstring, hn, trim_join_description h, hq.params, hq.returns,
    List.isEmpty_iff, join_eq_nil_iff h, hreturns]

/-- **What is written is read.** -/
theorem parse_written (f : Format) (y : Layout) (h : c.IsProper)
    (hnames : ∀ e ∈ c.params, isIdentifier e.1.toList) (horder : order.Perm c.params) :
    parse (c.written f y order) = c.docstring := by
  have hreadable := IsReadable.of_perm h hnames horder
  have hlines := areLines_lines (f := f) (y := y) hreadable
  obtain ⟨q, hread, hq⟩ := exists_reads_parts (f := f) (y := y) hreadable
  have hblank : allBlank c.summary = false := by
    refine Bool.eq_false_iff.mpr fun hblank => h.summary.ne_nil ?_
    rw [← h.summary.trim_eq, Text.trim_of_allBlank hblank]
  rw [parse, written, Text.lines_join (fun l hl => (hlines.line l hl).1)
    (fun l hl => (hlines.line l hl).2) hlines.last_ne_nil, lines, List.dropWhile_cons, hblank]
  simp only [Bool.false_eq_true, if_false]
  rw [hread.readLines_eq, h.summary.trim_eq, finish_eq h hq]

/-! ### Three docstrings -/

/-- One empty line in front of each part, and four spaces in front of entries. -/
def fourSpaces : Layout where
  gap := 1
  indent := "    ".toList
  indent_ne_nil := by decide
  indent_blank := by decide
  indent_oneLine := by decide
  resultIndent := "    ".toList
  resultIndent_blank := by decide
  resultIndent_oneLine := by decide
  type _ := "int".toList
  type_isPhrase _ := by decide

/-- A sum of two numbers. -/
def sum : Content where
  summary := "Add numbers.".toList
  description := ["Carries:".toList, [], "  none are lost.".toList]
  params := [("a", "First: a digit.".toList), ("b", "Second.".toList)]
  returns := some "The sum.".toList

/-- The theorem applies to an underlined docstring with the parameters out of order. -/
theorem parse_written_sum :
    sum.IsProper ∧ (∀ e ∈ sum.params, isIdentifier e.1.toList) ∧
    String.ofList (sum.written .underlined fourSpaces sum.params.reverse)
      = "Add numbers.\n\nCarries:\n\n  none are lost.\n\nParameters\n----------\n" ++
        "b : int\n    Second.\na : int\n    First: a digit.\n\nReturns\n-------\n    The sum." ∧
    parse (sum.written .underlined fourSpaces sum.params.reverse)
      = ⟨some "Add numbers.", some "Carries:\n\n  none are lost.",
          [("a", "First: a digit."), ("b", "Second.")], some "The sum."⟩ := by
  have hproper : sum.IsProper :=
    ⟨by decide +kernel, by decide +kernel, by decide +kernel, by decide +kernel, by decide +kernel,
      by decide +kernel, by decide +kernel, by decide +kernel⟩
  have hnames : ∀ e ∈ sum.params, isIdentifier e.1.toList := by decide +kernel
  refine ⟨hproper, hnames, by decide +kernel, ?_⟩
  rw [parse_written .underlined fourSpaces hproper hnames (List.reverse_perm _)]
  decide +kernel

/-- A parameter with an umlaut in its name. -/
def umlaut : Content where
  summary := "Scale.".toList
  description := []
  params := [("größe", "The size.".toList)]
  returns := none

/-- A field that is quoted in a description. -/
def quoting : Content where
  summary := "Explain.".toList
  description := ["Write".toList, "  :param x: y".toList, "for x.".toList]
  params := []
  returns := none

/-- A name that is no ASCII identifier is not read, and a field is read although it is indented. -/
theorem parse_written_ne :
    (umlaut.IsProper ∧
      parse (umlaut.written .headed fourSpaces umlaut.params)
        = ⟨some "Scale.", none, [], none⟩ ∧
      parse (umlaut.written .headed fourSpaces umlaut.params) ≠ umlaut.docstring) ∧
    (∀ l ∈ quoting.description, headerTitle? l = none ∧ isRule l = false ∧ l.head? ≠ some ':') ∧
      parse (quoting.written .headed fourSpaces quoting.params) ≠ quoting.docstring :=
  ⟨⟨⟨by decide +kernel, by decide +kernel, by decide +kernel, by decide +kernel, by decide +kernel,
    by decide +kernel, by decide +kernel, by decide +kernel⟩, by decide +kernel, by decide +kernel⟩,
    by decide +kernel, by decide +kernel⟩

end Content

end ApiSurface.Doc
