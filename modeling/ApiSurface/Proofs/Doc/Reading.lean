import ApiSurface.Proofs.Doc.Lines
import ApiSurface.Proofs.KeyedList

/-!
# Reading the sections of a docstring

Lines are read from a state to another (`Reads`), and so are lines after lines. Each of the three
styles writes its parameters and its result in its own way (`Format`), but what is collected from
them is the same: the entries one after another (`reads_paramLines`) and the text of the result
(`reads_returnLines`).
-/

namespace ApiSurface.Doc

open ApiSurface.Text (allBlank byteSize trim)

variable {l text above rule : Line} {ls a b : List Line} {p q r : Progress} {n : Nat}

/-! ### Lines after lines -/

/-- The lines are read from one state to the other, whatever follows, if it does not underline
them. -/
structure Reads (p : Progress) (ls : List Line) (q : Progress) : Prop where
  noRule : ∀ l ∈ ls.head?, isRule (trim l) = false
  readLines_append : ∀ rest : List Line, (∀ l ∈ rest.head?, isRule (trim l) = false) →
    p.readLines (ls ++ rest) = q.readLines rest

namespace Reads

theorem nil (p : Progress) : Reads p [] p := ⟨nofun, fun _ _ => rfl⟩

theorem append (h₁ : Reads p a q) (h₂ : Reads q b r) : Reads p (a ++ b) r where
  noRule := by
    cases a with
    | nil => exact h₂.noRule
    | cons l a => exact h₁.noRule
  readLines_append rest hrest := by
    rw [List.append_assoc, h₁.readLines_append, h₂.readLines_append rest hrest]
    cases b with
    | nil => exact hrest
    | cons l b => exact h₂.noRule

theorem readLines_eq (h : Reads p ls q) : p.readLines ls = q := by
  have := h.readLines_append [] nofun
  rwa [List.append_nil] at this

/-- A line that is no rule is read by itself. -/
theorem line (h : isRule (trim l) = false) (p : Progress) : Reads p [l] (p.addLine l) where
  noRule m hm := by rwa [← Option.some.inj hm]
  readLines_append rest hrest := by
    cases rest with
    | nil => rfl
    | cons next rest =>
      have htitle : Progress.isTitle l next = false := by
        rw [Progress.isTitle, hrest next rfl, Bool.and_false]
      rw [List.singleton_append, Progress.readLines, htitle]
      rfl

/-- A title is read with the rule below it. -/
theorem title (htitle : Progress.isTitle above rule) (hrule : isRule (trim above) = false)
    (p : Progress) :
    Reads p [above, rule] (p.enter ⟨topicOf (trim above), .underlined, indentOf above⟩) where
  noRule l hl := by rwa [← Option.some.inj hl]
  readLines_append rest _ := by
    rw [List.cons_append, List.singleton_append, Progress.readLines, if_pos htitle]

end Reads

/-! ### Text outside of sections -/

theorem isPlain_nil : IsPlain [] := ⟨by decide, by decide, by decide⟩

/-- In front of all sections, lines are description. -/
theorem reads_description (hcurrent : p.current = none) (h : ∀ l ∈ ls, IsPlain l) :
    Reads p ls { p with description := p.description ++ ls } := by
  induction ls generalizing p with
  | nil => exact (List.append_nil p.description).symm ▸ .nil p
  | cons l ls ih =>
    rw [List.forall_mem_cons] at h
    have hline : p.addLine l = { p with description := p.description ++ [l] } := by
      rw [addLine_of_isPlain h.1, Progress.addPlain, hcurrent]
    have hrest := ih (p := { p with description := p.description ++ [l] }) hcurrent h.2
    rw [List.append_assoc] at hrest
    exact ((hline ▸ Reads.line h.1.noRule p).append hrest)

/-- In a section, empty lines make no difference. -/
theorem reads_replicate_of_current {s : Section} (hcurrent : p.current = some s) (n : Nat) :
    Reads p (List.replicate n []) p := by
  induction n with
  | zero => exact .nil p
  | succ n ih =>
    have hline : p.addLine [] = p := by
      rw [addLine_of_isPlain isPlain_nil, Progress.addPlain, hcurrent]
      rfl
    exact (hline ▸ Reads.line (l := []) rfl p).append ih

/-- What is collected, empty lines behind the description aside. -/
structure Has (p : Progress) (description : List Line) (params : List (String × Line))
    (returns : Line) : Prop where
  description : ∃ n, p.description = description ++ List.replicate n []
  params : p.params = params
  returns : p.returns = returns

variable {d : List Line} {ps : List (String × Line)} {t : Line}

theorem exists_reads_replicate (h : Has p d ps t) (n : Nat) :
    ∃ q, Reads p (List.replicate n []) q ∧ Has q d ps t := by
  cases hcurrent : p.current with
  | none =>
    -- the lines go to the description, behind what is there
    obtain ⟨k, hk⟩ := h.description
    refine ⟨_, reads_description hcurrent fun l hl => ?_, ⟨k + n, ?_⟩, h.params, h.returns⟩
    · rw [List.eq_of_mem_replicate hl]
      exact isPlain_nil
    · dsimp only
      rw [hk, List.append_assoc, List.replicate_append_replicate]
  | some s => exact ⟨p, reads_replicate_of_current hcurrent n, h⟩

/-! ### Styles -/

/-- The three usual styles. -/
inductive Format where
  /-- `Args:` and `Returns:` with indented entries below. -/
  | headed
  /-- `Parameters` and `Returns`, underlined. -/
  | underlined
  /-- `:param name:` and `:returns:`. -/
  | fields

/-- What may differ between two docstrings that say the same in the same style: the number of empty
lines in front of each part, the indentation of entries and of the result, and the types of
parameters. -/
structure Layout where
  gap : Nat
  indent : Line
  indent_ne_nil : indent ≠ []
  indent_blank : allBlank indent
  indent_oneLine : '\n' ∉ indent
  resultIndent : Line
  resultIndent_blank : allBlank resultIndent
  resultIndent_oneLine : '\n' ∉ resultIndent
  type : String → Line
  type_isPhrase : ∀ name, IsPhrase (type name)

namespace Format

variable (f : Format) (y : Layout)

/-- The lines of a parameter. -/
def entry (name : String) (text : Line) : List Line :=
  match f with
  | headed => [y.indent ++ entryLine name.toList [] text]
  | underlined => [entryLine name.toList [' '] (y.type name), y.indent ++ text]
  | fields => [paramField name.toList text]

/-- The lines above all parameters. -/
def heading : List Line :=
  match f with
  | headed => ["Args:".toList]
  | underlined => ["Parameters".toList, "----------".toList]
  | fields => []

/-- The lines of the parameters. -/
def paramLines (es : List (String × Line)) : List Line :=
  f.heading ++ es.flatMap fun e => f.entry y e.1 e.2

/-- The lines of the result. -/
def returnLines (text : Line) : List Line :=
  match f with
  | headed => ["Returns:".toList, y.resultIndent ++ text]
  | underlined => ["Returns".toList, "-------".toList, y.resultIndent ++ text]
  | fields => [returnsField text]

/-- The section that parameters are read in. -/
def paramSection : Section :=
  match f with
  | headed => ⟨.params, .colon, 0⟩
  | underlined => ⟨.params, .underlined, 0⟩
  | fields => ⟨.other, .colon, 0⟩

/-- The section that the result is read in. -/
def returnSection : Section :=
  match f with
  | underlined => ⟨.returns, .underlined, 0⟩
  | _ => ⟨.returns, .colon, 0⟩

/-- The indentation of names. -/
def base : Nat :=
  match f with
  | headed => byteSize y.indent
  | _ => 0

end Format

/-! ### Parameters -/

variable {f : Format} {y : Layout} {name : String}

/-- A parameter that can be read back: the name is an identifier, and the text is one line that has
no meaning by itself. -/
structure IsEntry (name : String) (text : Line) : Prop where
  isIdentifier : Routing.isIdentifier name.toList
  isPhrase : IsPhrase text
  isPlain : IsPlain text

/-- Where parameters are read: nothing is continued by a line as deep as a name. -/
structure InParams (f : Format) (y : Layout) (p : Progress) : Prop where
  current : p.current = some f.paramSection
  entry : ∀ e ∈ p.entry, e.2 = f.base y

namespace InParams

theorem continued?_eq_none (h : InParams f y p) : p.continued? (f.base y) = none := by
  unfold Progress.continued?
  split
  · next he => exact if_neg (h.entry _ he ▸ Nat.lt_irrefl _)
  · rfl

theorem beginParam (h : InParams f y p) (name text : Line) :
    InParams f y (p.beginParam name text (f.base y)) where
  current := h.current
  entry _ he := Option.some.inj he ▸ rfl

end InParams

/-- A line that is as deep as a name begins the parameter that it names. -/
theorem addPlain_eq_beginParam {line trimmed name : Line} (hp : InParams f y p)
    (htopic : f.paramSection.topic = .params) (hne : trimmed ≠ [])
    (hentry : Progress.paramEntry? f.paramSection (f.base y) trimmed = some (name, text)) :
    p.addPlain line trimmed (f.base y) = p.beginParam name text (f.base y) := by
  rw [Progress.addPlain, hp.current]
  simp only [List.isEmpty_iff, if_neg hne, htopic, hp.continued?_eq_none, hentry]

theorem addLine_headed (h : IsEntry name text) (hp : InParams .headed y p) :
    p.addLine (y.indent ++ entryLine name.toList [] text)
      = p.beginParam name.toList text (byteSize y.indent) := by
  have hphrase := isPhrase_entryLine h.isIdentifier List.not_mem_nil h.isPhrase
  rw [addLine_of_isPlain (isPlain_entryLine h.isIdentifier y.indent_blank List.not_mem_nil
    h.isPhrase), hphrase.trim_append y.indent_blank, hphrase.indentOf_append y.indent_blank]
  exact addPlain_eq_beginParam hp rfl hphrase.ne_nil
    (colonParam?_entryLine h.isIdentifier h.isPhrase)

theorem isPlain_typeLine (h : Routing.isIdentifier name.toList) :
    IsPlain (entryLine name.toList [' '] (y.type name)) :=
  isPlain_entryLine h (show allBlank [] from rfl) (by decide) (y.type_isPhrase name)

theorem addLine_underlined (h : Routing.isIdentifier name.toList) (hp : InParams .underlined y p) :
    p.addLine (entryLine name.toList [' '] (y.type name)) = p.beginParam name.toList [] 0 := by
  have hphrase : IsPhrase (entryLine name.toList [' '] (y.type name)) :=
    isPhrase_entryLine h (by decide) (y.type_isPhrase name)
  rw [addLine_of_isPlain (isPlain_typeLine h), hphrase.trim_eq, hphrase.indentOf_eq_zero]
  refine addPlain_eq_beginParam hp rfl hphrase.ne_nil ?_
  rw [Progress.paramEntry?]
  exact (if_pos (Nat.le_refl 0)).trans (by rw [underlinedParam?_entryLine h]; rfl)

/-- A deeper line continues the parameter that was begun. -/
theorem addLine_text (h : IsPhrase text) (hplain : IsPlain text) (hp : InParams .underlined y p) :
    (p.beginParam name.toList [] 0).addLine (y.indent ++ text)
      = (p.beginParam name.toList [] 0).continueParam name text := by
  have hdeep : 0 < byteSize y.indent := Text.byteSize_pos y.indent_ne_nil
  have hcontinued : (p.beginParam name.toList [] 0).continued? (byteSize y.indent) = some name := by
    rw [Progress.continued?, Progress.beginParam, String.ofList_toList]
    exact if_pos hdeep
  have hcurrent : (p.beginParam name.toList [] 0).current = some Format.underlined.paramSection :=
    hp.current
  rw [addLine_of_isPlain (hplain.append_left y.indent_blank), h.trim_append y.indent_blank,
    h.indentOf_append y.indent_blank, Progress.addPlain, hcurrent]
  simp only [List.isEmpty_iff, if_neg h.ne_nil, Format.paramSection, hcontinued]

theorem addLine_fields (h : IsEntry name text) (p : Progress) :
    p.addLine (paramField name.toList text)
      = (p.enter Format.fields.paramSection).beginParam name.toList text 0 := by
  have hphrase := isPhrase_paramField h.isIdentifier h.isPhrase
  have hheader : headerTitle? (paramField name.toList text) = none :=
    headerTitle?_eq_none (":param ".toList ++ name.toList) (List.cons_ne_nil ' ' text)
  simp only [Progress.addLine, hphrase.trim_eq, hheader, hphrase.indentOf_eq_zero,
    fieldParam?_paramField h.isIdentifier h.isPhrase]
  rfl

theorem reads_paramField (h : IsEntry name text) (p : Progress) :
    Reads p [paramField name.toList text]
      ((p.enter Format.fields.paramSection).beginParam name.toList text 0) := by
  have hrule : isRule (trim (paramField name.toList text)) = false := by
    rw [(isPhrase_paramField h.isIdentifier h.isPhrase).trim_eq]
    exact Bool.and_false _
  exact addLine_fields h p ▸ Reads.line hrule p

theorem IsPhrase.extend_nil (h : IsPhrase text) : Progress.extend [] text = text := by
  rw [Progress.extend, h.trim_eq]
  cases text with
  | nil => rfl
  | cons c text => rfl

/-- A text that is set later is set. -/
theorem continueParam_beginParam (h : IsPhrase text) (hfresh : name ∉ p.params.map Prod.fst)
    (n : Nat) : (p.beginParam name.toList [] n).continueParam name text
      = p.beginParam name.toList text n := by
  simp only [Progress.continueParam, Progress.beginParam, String.ofList_toList,
    KeyedList.modify_insert _ hfresh, h.extend_nil]

theorem reads_entry (h : IsEntry name text) (hp : InParams f y p)
    (hfresh : name ∉ p.params.map Prod.fst) :
    Reads p (f.entry y name text) (p.beginParam name.toList text (f.base y)) := by
  cases f with
  | headed =>
    have hplain := isPlain_entryLine h.isIdentifier y.indent_blank List.not_mem_nil h.isPhrase
    exact addLine_headed h hp ▸ Reads.line hplain.noRule p
  | underlined =>
    have htext := h.isPlain.append_left y.indent_blank
    have hfirst := addLine_underlined h.isIdentifier hp ▸
      Reads.line (isPlain_typeLine h.isIdentifier).noRule p
    have hsecond := addLine_text h.isPhrase h.isPlain hp ▸
      Reads.line htext.noRule (p.beginParam name.toList [] 0)
    rw [continueParam_beginParam h.isPhrase hfresh] at hsecond
    exact hfirst.append hsecond
  | fields =>
    have henter : (p.enter Format.fields.paramSection).beginParam name.toList text 0
        = p.beginParam name.toList text 0 := by
      rw [Progress.enter, ← hp.current]
      rfl
    exact henter ▸ reads_paramField h p

/-- Parameters one after another. -/
def beginParams (base : Nat) (p : Progress) (es : List (String × Line)) : Progress :=
  es.foldl (fun p e => p.beginParam e.1.toList e.2 base) p

theorem nodup_keys_beginParam {e : String × Line} {es : List (String × Line)}
    (hkeys : ((p.params ++ e :: es).map Prod.fst).Nodup) :
    (((p.beginParam e.1.toList e.2 n).params ++ es).map Prod.fst).Nodup := by
  rw [Progress.beginParam, String.ofList_toList]
  exact KeyedList.nodup_keys_insert hkeys

theorem reads_entries {es : List (String × Line)} (h : ∀ e ∈ es, IsEntry e.1 e.2)
    (hp : InParams f y p) (hkeys : ((p.params ++ es).map Prod.fst).Nodup) :
    Reads p (es.flatMap fun e => f.entry y e.1 e.2) (beginParams (f.base y) p es) := by
  -- the state changes with each entry, but stays in the section, and the names to come stay new
  induction es generalizing p with
  | nil => exact .nil p
  | cons e es ih =>
    rw [List.forall_mem_cons] at h
    have hfirst := reads_entry h.1 hp (KeyedList.notMem_keys hkeys)
    exact hfirst.append (ih h.2 (hp.beginParam _ _) (nodup_keys_beginParam hkeys))

theorem beginParams_collects (base : Nat) (p : Progress) (es : List (String × Line)) :
    (beginParams base p es).description = p.description ∧
      (beginParams base p es).params
        = es.foldl (fun l e => KeyedList.insert e.1 e.2 l) p.params ∧
      (beginParams base p es).returns = p.returns := by
  induction es generalizing p with
  | nil => exact ⟨rfl, rfl, rfl⟩
  | cons e es ih =>
    obtain ⟨hdescription, hparams, hreturns⟩ := ih (p.beginParam e.1.toList e.2 base)
    refine ⟨hdescription, ?_, hreturns⟩
    rw [beginParams, List.foldl_cons, ← beginParams, hparams, Progress.beginParam,
      String.ofList_toList, List.foldl_cons]

theorem inParams_enter (f : Format) (y : Layout) (p : Progress) :
    InParams f y (p.enter f.paramSection) := ⟨rfl, nofun⟩

/-- **Parameters are read in each style.** -/
theorem reads_paramLines {es : List (String × Line)} (hne : es ≠ [])
    (h : ∀ e ∈ es, IsEntry e.1 e.2) (hkeys : ((p.params ++ es).map Prod.fst).Nodup) :
    Reads p (f.paramLines y es) (beginParams (f.base y) (p.enter f.paramSection) es) := by
  have hentries := reads_entries h (inParams_enter f y p) hkeys
  cases f with
  | headed =>
    have hheading : p.addLine "Args:".toList = p.enter Format.headed.paramSection := rfl
    exact (hheading ▸ Reads.line rfl p).append hentries
  | underlined => exact (Reads.title rfl rfl p).append hentries
  | fields =>
    -- the first field opens the section by itself
    obtain ⟨e, es, rfl⟩ := List.exists_cons_of_ne_nil hne
    rw [List.forall_mem_cons] at h
    have hp := (inParams_enter .fields y p).beginParam e.1.toList e.2
    exact (reads_paramField h.1 p).append (reads_entries h.2 hp (nodup_keys_beginParam hkeys))

/-! ### Results -/

/-- A line of the section about the result. -/
theorem addLine_result {indent : Line} (h : IsPhrase text) (hplain : IsPlain text)
    (hindent : allBlank indent) {s : Section} (hs : s.topic = .returns) (hp : p.current = some s) :
    p.addLine (indent ++ text) = p.addReturns text := by
  rw [addLine_of_isPlain (hplain.append_left hindent), h.trim_append hindent, Progress.addPlain, hp]
  simp only [List.isEmpty_iff, if_neg h.ne_nil, hs]

/-- **The result is read in each style.** -/
theorem reads_returnLines (h : IsPhrase text) (hplain : IsPlain text) (p : Progress) :
    Reads p (f.returnLines y text) ((p.enter f.returnSection).addReturns text) := by
  have htext := hplain.append_left y.resultIndent_blank
  cases f with
  | headed =>
    have hheading : p.addLine "Returns:".toList = p.enter Format.headed.returnSection := rfl
    have hline := addLine_result h hplain y.resultIndent_blank rfl
      (show (p.enter Format.headed.returnSection).current = some _ from rfl)
    exact (hheading ▸ Reads.line rfl p).append (hline ▸ Reads.line htext.noRule _)
  | underlined =>
    have hline := addLine_result h hplain y.resultIndent_blank rfl
      (show (p.enter Format.underlined.returnSection).current = some _ from rfl)
    exact (Reads.title rfl rfl p).append (hline ▸ Reads.line htext.noRule _)
  | fields =>
    have hphrase := isPhrase_returnsField h
    have hheader : headerTitle? (returnsField text) = none :=
      headerTitle?_eq_none ":returns".toList (List.cons_ne_nil ' ' text)
    have hrule : isRule (trim (returnsField text)) = false := by
      rw [hphrase.trim_eq]
      exact Bool.and_false _
    have hline : p.addLine (returnsField text)
        = (p.enter Format.fields.returnSection).addReturns text := by
      simp only [Progress.addLine, hphrase.trim_eq, hheader, hphrase.indentOf_eq_zero,
        fieldParam?_returnsField, fieldReturns?_returnsField h]
      rfl
    exact hline ▸ Reads.line hrule p

end ApiSurface.Doc
