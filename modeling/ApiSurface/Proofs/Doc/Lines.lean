import ApiSurface.Doc.Docstring
import ApiSurface.Proofs.Routing.WrittenPaths
import ApiSurface.Proofs.Text.Trimming

/-!
# Lines of docstrings

What the lines of the three usual styles are taken for: a line in which something follows a colon is
no header (`headerTitle?_eq_none`), `name: text` has its name and text (`colonParam?_entry`), and so
have `name : type` and the fields `:param name: text` and `:returns: text`. A line that is none of
these by itself has no meaning (`addLine_of_isPlain`).
-/

namespace ApiSurface.Doc

open ApiSurface.Routing (isIdentifier isLetter isWordChar notMem_of_isIdentifier takeIdentifier?
  takeIdentifier?_append)
open ApiSurface.Text (allBlank byteSize isBlank splitFirst_append_cons trim trimEnd
  trimEnd_eq_self_iff trimStart trimStart_eq_self_iff trim_append_left trim_eq_self_iff)

variable {l name text indent : Line} {p : Progress}

/-- A line of text: there is some, and no white space at its ends. -/
structure IsPhrase (l : Line) : Prop where
  ne_nil : l ≠ []
  trim_eq : trim l = l
  oneLine : '\n' ∉ l

instance (l : Line) : Decidable (IsPhrase l) :=
  decidable_of_iff (l ≠ [] ∧ trim l = l ∧ '\n' ∉ l)
    ⟨fun ⟨hne, htrim, hline⟩ => ⟨hne, htrim, hline⟩, fun h => ⟨h.ne_nil, h.trim_eq, h.oneLine⟩⟩

/-- White space around it aside, the line is no header, no rule, and no field. -/
structure IsPlain (l : Line) : Prop where
  noHeader : headerTitle? (trim l) = none
  noRule : isRule (trim l) = false
  noField : (trim l).head? ≠ some ':'

instance (l : Line) : Decidable (IsPlain l) :=
  decidable_of_iff (headerTitle? (trim l) = none ∧ isRule (trim l) = false ∧
      (trim l).head? ≠ some ':')
    ⟨fun ⟨hheader, hrule, hfield⟩ => ⟨hheader, hrule, hfield⟩,
      fun h => ⟨h.noHeader, h.noRule, h.noField⟩⟩

theorem IsPlain.append_left (h : IsPlain l) (hindent : allBlank indent) : IsPlain (indent ++ l) := by
  have htrim := trim_append_left (l := l) hindent
  exact ⟨htrim ▸ h.noHeader, htrim ▸ h.noRule, htrim ▸ h.noField⟩

/-! ### Phrases -/

namespace IsPhrase

theorem isBlank_head? (h : IsPhrase l) : ∀ c ∈ l.head?, isBlank c = false :=
  (trim_eq_self_iff.mp h.trim_eq).1

theorem isBlank_getLast? (h : IsPhrase l) : ∀ c ∈ l.getLast?, isBlank c = false :=
  (trim_eq_self_iff.mp h.trim_eq).2

theorem indentOf_append (h : IsPhrase l) (hindent : allBlank indent) :
    indentOf (indent ++ l) = byteSize indent := by
  have hstop : l.takeWhile isBlank = [] := by
    obtain ⟨c, r, rfl⟩ := List.exists_cons_of_ne_nil h.ne_nil
    rw [List.takeWhile_cons, h.isBlank_head? c rfl]
    rfl
  rw [indentOf, List.takeWhile_append_of_pos (Text.allBlank_iff.mp hindent), hstop, List.append_nil]

theorem trim_append (h : IsPhrase l) (hindent : allBlank indent) : trim (indent ++ l) = l := by
  rw [trim_append_left hindent, h.trim_eq]

theorem trim_space (h : IsPhrase l) : trim (' ' :: l) = l :=
  h.trim_append (show allBlank [' '] from rfl)

theorem indentOf_eq_zero (h : IsPhrase l) : indentOf l = 0 :=
  h.indentOf_append (show allBlank [] from rfl)

/-- Text in front of a phrase makes a phrase with it, if it does not begin with white space. -/
theorem append_left {pre : Line} (h : IsPhrase l) (hne : pre ≠ [])
    (hhead : trimStart pre = pre) (hline : '\n' ∉ pre) : IsPhrase (pre ++ l) where
  ne_nil := List.append_ne_nil_of_left_ne_nil hne l
  trim_eq := by
    refine trim_eq_self_iff.mpr ⟨fun c hc => ?_, fun c hc => ?_⟩
    · rw [List.head?_append_of_ne_nil _ hne] at hc
      exact trimStart_eq_self_iff.mp hhead c hc
    · rw [List.getLast?_append_of_ne_nil _ h.ne_nil] at hc
      exact h.isBlank_getLast? c hc
  oneLine := by
    rw [List.mem_append, not_or]
    exact ⟨hline, h.oneLine⟩

/-- A line that ends with a phrase is one line. -/
theorem isLine_append (h : IsPhrase l) {pre : Line} (hline : '\n' ∉ pre) :
    pre ++ l ≠ [] ∧ '\n' ∉ pre ++ l ∧ (pre ++ l).getLast? ≠ some '\r' := by
  refine ⟨List.append_ne_nil_of_right_ne_nil pre h.ne_nil, ?_, fun hr => ?_⟩
  · rw [List.mem_append, not_or]
    exact ⟨hline, h.oneLine⟩
  · rw [List.getLast?_append_of_ne_nil _ h.ne_nil] at hr
    have hblank := h.isBlank_getLast? _ hr
    revert hblank
    decide

theorem isLine (h : IsPhrase l) : l ≠ [] ∧ '\n' ∉ l ∧ l.getLast? ≠ some '\r' :=
  h.isLine_append List.not_mem_nil

end IsPhrase

/-! ### Headers -/

/-- No title has a colon in it. -/
theorem noColon_titles :
    ∀ t ∈ paramTitles ++ returnTitles ++ otherTitles, ':' ∉ t.toList := by decide

/-- A header ends with its only colon. -/
theorem headerTitle?_eq_none (a : Line) {b : Line} (hb : b ≠ []) :
    headerTitle? (a ++ ':' :: b) = none := by
  -- whatever the last character is, the title in front of it would have the other colon in it
  have hmem : ':' ∈ trimEnd (a ++ ':' :: b).dropLast := by
    refine Text.mem_trimEnd (by decide) ?_
    rw [List.dropLast_append_of_ne_nil (List.cons_ne_nil _ _), List.dropLast_cons_of_ne_nil hb]
    exact List.mem_append_right _ List.mem_cons_self
  rw [headerTitle?]
  split
  · simp only
    split
    · next htitle =>
      refine absurd hmem ?_
      have := noColon_titles (String.ofList (trimEnd (a ++ ':' :: b).dropLast)) (by
        simpa [or_assoc] using htitle)
      rwa [String.toList_ofList] at this
    · rfl
  · rfl

/-! ### Lines that begin with a name -/

section Name

theorem isBlank_of_isWordChar {c : Char} (h : isWordChar c) : isBlank c = false := by
  have hrange : (97 ≤ c.toNat ∧ c.toNat ≤ 122) ∨ (65 ≤ c.toNat ∧ c.toNat ≤ 90) ∨ c.toNat = 95 ∨
      (48 ≤ c.toNat ∧ c.toNat ≤ 57) := by
    simp only [isWordChar, isLetter, Bool.or_eq_true, Bool.and_eq_true, decide_eq_true_eq,
      beq_iff_eq, or_assoc] at h
    rcases h with h | h | rfl | h
    · exact .inl h
    · exact .inr (.inl h)
    · decide
    · exact .inr (.inr (.inr h))
  simp only [isBlank, Bool.or_eq_false_iff, Bool.and_eq_false_iff, decide_eq_false_iff_not,
    beq_eq_false_iff_ne]
  omega

/-- The line `name: text`, with white space between name and colon or not. -/
def entryLine (name sep text : Line) : Line := name ++ (sep ++ ':' :: ' ' :: text)

/-- The line `:param name: text`. -/
def paramField (name text : Line) : Line := ":param ".toList ++ entryLine name [] text

/-- The line `:returns: text`. -/
def returnsField (text : Line) : Line := ":returns: ".toList ++ text

theorem dropStars_of_isLetter (h : ∀ c ∈ l.head?, isLetter c) : dropStars l = l := by
  unfold dropStars
  split
  · cases h '*' rfl
  · cases h '*' rfl
  · rfl

variable (hname : isIdentifier name)

include hname

theorem isBlank_of_mem_name {c : Char} (hc : c ∈ name) : isBlank c = false := by
  by_contra hblank
  refine notMem_of_isIdentifier (Bool.eq_false_iff.mpr fun hword => ?_) hname hc
  exact hblank (isBlank_of_isWordChar hword)

theorem name_ne_nil : name ≠ [] := fun h => by
  rw [h] at hname
  cases hname

/-- An identifier begins with a letter or an underscore. -/
theorem isLetter_head?_append (r : Line) : ∀ c ∈ (name ++ r).head?, isLetter c := by
  intro c hc
  rw [List.head?_append_of_ne_nil _ (name_ne_nil hname)] at hc
  obtain ⟨r, rfl⟩ := List.head?_eq_some_iff.mp hc
  exact (Bool.and_eq_true_iff.mp hname).1

theorem isPhrase_entryLine {sep : Line} (hsep : '\n' ∉ sep) (h : IsPhrase text) :
    IsPhrase (entryLine name sep text) := by
  have hsplit : entryLine name sep text = name ++ (sep ++ [':', ' ']) ++ text := by
    simp [entryLine]
  rw [hsplit]
  refine h.append_left (List.append_ne_nil_of_left_ne_nil (name_ne_nil hname) _) ?_ ?_
  · refine trimStart_eq_self_iff.mpr fun c hc => ?_
    have hletter := isLetter_head?_append hname _ c hc
    exact isBlank_of_isWordChar (Bool.or_eq_true_iff.mpr (.inl hletter))
  · simp only [List.mem_append, not_or]
    exact ⟨notMem_of_isIdentifier (by decide) hname, hsep, by decide⟩

/-- A line that begins with a name and has text behind a colon is no header, rule or field. -/
theorem isPlain_entryLine (hindent : allBlank indent) {sep : Line} (hsep : '\n' ∉ sep)
    (h : IsPhrase text) : IsPlain (indent ++ entryLine name sep text) := by
  have hletter := isLetter_head?_append hname (sep ++ ':' :: ' ' :: text)
  have hphrase := isPhrase_entryLine hname hsep h
  refine ⟨?_, ?_, ?_⟩ <;> rw [hphrase.trim_append hindent]
  · rw [entryLine, ← List.append_assoc]
    exact headerTitle?_eq_none _ (List.cons_ne_nil _ _)
  · obtain ⟨c, r, hc⟩ := List.exists_cons_of_ne_nil hphrase.ne_nil
    have hne : (c == '-') = false := beq_eq_false_iff_ne.mpr fun h => by
      have := hletter c (by rw [← entryLine, hc]; rfl)
      rw [h] at this
      cases this
    rw [isRule, hc, List.all_cons, hne, Bool.false_and, Bool.and_false]
  · intro hcolon
    cases hletter ':' hcolon

theorem takeIdentifier?_entryLine {sep : Line} (hsep : allBlank sep) :
    takeIdentifier? (dropStars (entryLine name sep text))
      = some (name, sep ++ ':' :: ' ' :: text) := by
  rw [entryLine, dropStars_of_isLetter (isLetter_head?_append hname _)]
  refine takeIdentifier?_append hname fun c hc => Bool.eq_false_iff.mpr fun hword => ?_
  cases sep with
  | nil =>
    rw [← Option.some.inj hc] at hword
    cases hword
  | cons d sep =>
    have hblank := isBlank_of_isWordChar hword
    rw [← Option.some.inj hc, Text.allBlank_iff.mp hsep d List.mem_cons_self] at hblank
    cases hblank

/-- The name and the text of `name: text`. -/
theorem colonParam?_entryLine (h : IsPhrase text) :
    colonParam? (entryLine name [] text) = some (name, text) := by
  rw [colonParam?, takeIdentifier?_entryLine hname rfl]
  exact congrArg (fun t => some (name, t)) h.trim_space

/-- The name of `name : type`. -/
theorem underlinedParam?_entryLine : underlinedParam? (entryLine name [' '] text) = some name := by
  rw [underlinedParam?, takeIdentifier?_entryLine hname rfl]
  rfl

theorem isPhrase_paramField (h : IsPhrase text) : IsPhrase (paramField name text) :=
  (isPhrase_entryLine hname List.not_mem_nil h).append_left (by decide) (by decide) (by decide)

/-- The name and the text of `:param name: text`. -/
theorem fieldParam?_paramField (h : IsPhrase text) :
    fieldParam? (paramField name text) = some (name, text) := by
  have hhead : stripHead? ":param" (paramField name text)
      = some ((' ' :: name) ++ ':' :: ' ' :: text) := rfl
  have hcolon : ':' ∉ ' ' :: name := by
    rw [List.mem_cons, not_or]
    exact ⟨by decide, notMem_of_isIdentifier (by decide) hname⟩
  -- the name is what follows the last white space in front of the colon
  have hlast : ((trimEnd (' ' :: name)).reverse.takeWhile fun c => !isBlank c).reverse = name := by
    have htrim : trimEnd (' ' :: name) = ' ' :: name := by
      refine trimEnd_eq_self_iff.mpr fun c hc => ?_
      rw [List.getLast?_cons_of_ne_nil (name_ne_nil hname)] at hc
      exact isBlank_of_mem_name hname (List.mem_of_getLast? hc)
    rw [htrim, List.reverse_cons, List.takeWhile_append_of_pos fun c hc => by
      rw [isBlank_of_mem_name hname (List.mem_reverse.mp hc)]; rfl]
    exact (congrArg List.reverse (List.append_nil _)).trans (List.reverse_reverse _)
  rw [fieldParam?, hhead]
  simp only [Option.bind_eq_bind, Option.bind_some, splitFirst_append_cons hcolon, hlast, hname]
  exact congrArg (fun t => some (name, t)) h.trim_space

end Name

/-! ### Lines without a name -/

theorem isPhrase_returnsField (h : IsPhrase text) : IsPhrase (returnsField text) :=
  h.append_left (by decide) (by decide) (by decide)

/-- The text of `:returns: text`. -/
theorem fieldReturns?_returnsField (h : IsPhrase text) :
    fieldReturns? (returnsField text) = some text :=
  congrArg some h.trim_space

theorem fieldParam?_returnsField (text : Line) : fieldParam? (returnsField text) = none := rfl

theorem stripHead?_eq_none {head : String} (hhead : head.toList.head? = some ':')
    (h : l.head? ≠ some ':') : stripHead? head l = none := by
  obtain ⟨r, hr⟩ := List.head?_eq_some_iff.mp hhead
  have : head.toList.isPrefixOf l = false := by
    refine Bool.eq_false_iff.mpr fun hprefix => h ?_
    obtain ⟨more, rfl⟩ := List.isPrefixOf_iff_prefix.mp hprefix
    rw [hr]
    rfl
  rw [stripHead?, this]
  rfl

/-- **Lines without a meaning.** -/
theorem addLine_of_isPlain (h : IsPlain l) : p.addLine l = p.addPlain l (trim l) (indentOf l) := by
  have hparam : fieldParam? (trim l) = none := by
    rw [fieldParam?, stripHead?_eq_none rfl h.noField]
    rfl
  have hreturns : fieldReturns? (trim l) = none := by
    rw [fieldReturns?, stripHead?_eq_none rfl h.noField]
    rfl
  have hfield : isField (trim l) = false := by
    unfold isField
    split
    · next hl => exact absurd (by rw [hl]; rfl) h.noField
    · rfl
  simp only [Progress.addLine, h.noHeader, hparam, hreturns, hfield]
  rfl

end ApiSurface.Doc
