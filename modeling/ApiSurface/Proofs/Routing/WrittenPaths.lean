import ApiSurface.Proofs.Routing.JoinedPlaceholders

/-!
# Paths as they are written

A path is written as a sequence of pieces (`Piece`): literal text, and placeholders in one of five
forms. The placeholders that are read from a path are those of its pieces, in order
(`placeholders_written`). Literal text may hold closing characters, and the arguments of a converter
may hold anything but a closing angle, also what looks like a placeholder: reading begins at an
opening character and goes on behind the closing one.
-/

namespace ApiSurface.Routing

variable {c : Char} {l r content : List Char}

/-- ASCII letters, digits and underscores, at least one, and no digit in front. -/
structure Identifier where
  chars : List Char
  isIdentifier_chars : isIdentifier chars = true

/-- A piece of a path. -/
inductive Piece where
  /-- Text in which no placeholder can begin. -/
  | literal (text : List Char) (no_opening : ∀ c ∈ text, c ≠ '<' ∧ c ≠ '\x7b')
  /-- `<name>` -/
  | angle (name : Identifier)
  /-- `<converter:name>` -/
  | converted (converter name : Identifier)
  /-- `<converter(arguments):name>` -/
  | applied (converter : Identifier) (arguments : List Char) (no_closing : '>' ∉ arguments)
    (name : Identifier)
  /-- `{name}` -/
  | brace (name : Identifier)
  /-- `{name:converter}` -/
  | convertedBrace (name : Identifier) (converter : List Char) (ne_nil : converter ≠ [])
    (letters : ∀ c ∈ converter, isLetter c = true)

/-- Text between angles. -/
def inAngles (content : List Char) : List Char := '<' :: (content ++ ['>'])

/-- Text between braces. -/
def inBraces (content : List Char) : List Char := '\x7b' :: (content ++ ['\x7d'])

namespace Piece

/-- The text of a piece. -/
def chars : Piece → List Char
  | literal text _ => text
  | angle name => inAngles name.chars
  | converted converter name => inAngles (converter.chars ++ ':' :: name.chars)
  | applied converter arguments _ name =>
    inAngles (converter.chars ++ '(' :: (arguments ++ ')' :: ':' :: name.chars))
  | brace name => inBraces name.chars
  | convertedBrace name converter _ _ => inBraces (name.chars ++ ':' :: converter)

/-- The placeholder that a piece stands for. An angle without a converter has the one for strings,
and a brace has none. -/
def placeholder? : Piece → Option Placeholder
  | literal _ _ => none
  | angle name => some ⟨String.ofList name.chars, some "string"⟩
  | converted converter name | applied converter _ _ name =>
    some ⟨String.ofList name.chars, some (String.ofList converter.chars)⟩
  | brace name | convertedBrace name _ _ _ => some ⟨String.ofList name.chars, none⟩

end Piece

/-- The path that is written with the given pieces. -/
def written (pieces : List Piece) : String := String.ofList (pieces.flatMap Piece.chars)

/-! ### Identifiers in front -/

/-- An identifier ends where a character follows that cannot stand in one. -/
theorem takeIdentifier?_append (h : isIdentifier l) (hr : ∀ c ∈ r.head?, isWordChar c = false) :
    takeIdentifier? (l ++ r) = some (l, r) := by
  have hstop : r.takeWhile isWordChar = [] ∧ r.dropWhile isWordChar = r := by
    cases r with
    | nil => exact ⟨rfl, rfl⟩
    | cons c r =>
      have hc : isWordChar c = false := hr c rfl
      simp [hc]
  cases l with
  | nil => cases h
  | cons c l =>
    obtain ⟨hc, hl⟩ := Bool.and_eq_true_iff.mp h
    have hword : ∀ d ∈ l, isWordChar d := List.all_eq_true.mp hl
    rw [List.cons_append, takeIdentifier?, if_pos hc, List.takeWhile_append_of_pos hword,
      List.dropWhile_append_of_pos hword, hstop.1, hstop.2, List.append_nil]

namespace Identifier

theorem takeIdentifier?_chars (i : Identifier) : takeIdentifier? i.chars = some (i.chars, []) := by
  simpa using takeIdentifier?_append i.isIdentifier_chars (r := []) (by simp)

theorem takeIdentifier?_chars_cons (i : Identifier) (hc : isWordChar c = false) (r : List Char) :
    takeIdentifier? (i.chars ++ c :: r) = some (i.chars, c :: r) :=
  takeIdentifier?_append i.isIdentifier_chars (by simpa using hc)

theorem notMem_chars (i : Identifier) (hc : isWordChar c = false) : c ∉ i.chars :=
  notMem_of_isIdentifier hc i.isIdentifier_chars

theorem named?_chars (converter : List Char) (i : Identifier) :
    named? converter i.chars
      = some ⟨String.ofList i.chars, some (String.ofList converter)⟩ :=
  if_pos i.isIdentifier_chars

end Identifier

/-! ### Angles and braces -/

theorem readAngle?_chars (name : Identifier) :
    readAngle? name.chars = some ⟨String.ofList name.chars, some "string"⟩ := by
  rw [readAngle?_eq, name.takeIdentifier?_chars]
  rfl

theorem readAngle?_converted (converter name : Identifier) :
    readAngle? (converter.chars ++ ':' :: name.chars)
      = some ⟨String.ofList name.chars, some (String.ofList converter.chars)⟩ := by
  rw [readAngle?_eq, converter.takeIdentifier?_chars_cons (by decide)]
  exact name.named?_chars converter.chars

/-- The arguments end at the last closing parenthesis, since there is none in the name. -/
theorem readAngle?_applied (converter : Identifier) (arguments : List Char) (name : Identifier) :
    readAngle? (converter.chars ++ '(' :: (arguments ++ ')' :: ':' :: name.chars))
      = some ⟨String.ofList name.chars, some (String.ofList converter.chars)⟩ := by
  have hparen : ')' ∉ ':' :: name.chars := by
    rw [List.mem_cons, not_or]
    exact ⟨by decide, name.notMem_chars (by decide)⟩
  have hbehind : behindFirst? converter.chars ('(' :: (arguments ++ ')' :: ':' :: name.chars))
      = named? converter.chars name.chars := by
    simp only [behindFirst?, Text.splitLast_append hparen, Option.bind_some, behindArguments?]
  rw [readAngle?_eq, converter.takeIdentifier?_chars_cons (by decide)]
  exact hbehind.trans (name.named?_chars converter.chars)

theorem readBrace?_chars (name : Identifier) :
    readBrace? name.chars = some ⟨String.ofList name.chars, none⟩ := by
  rw [readBrace?, name.takeIdentifier?_chars]
  rfl

theorem readBrace?_converted (name : Identifier) {converter : List Char} (hne : converter ≠ [])
    (hletters : ∀ c ∈ converter, isLetter c = true) :
    readBrace? (name.chars ++ ':' :: converter) = some ⟨String.ofList name.chars, none⟩ := by
  have htail : isBraceTail (':' :: converter) = true := by
    obtain ⟨c, r, rfl⟩ := List.exists_cons_of_ne_nil hne
    rw [List.forall_mem_cons] at hletters
    rw [isBraceTail, hletters.1, List.all_eq_true.mpr hletters.2]
    rfl
  rw [readBrace?, name.takeIdentifier?_chars_cons (by decide)]
  exact if_pos htail

theorem placeholdersFrom_inAngles {p : Placeholder} (hread : readAngle? content = some p)
    (hclosing : '>' ∉ content) (rest : List Char) :
    placeholdersFrom 0 (inAngles content ++ rest) = p :: placeholdersFrom 0 rest := by
  have hstep : step? '<' (content ++ '>' :: rest) = some (p, rest) := by
    rw [step?, if_pos rfl, readUpTo?, Text.splitFirst_append_cons hclosing]
    exact congrArg (Option.map _) hread
  rw [inAngles, List.cons_append, List.append_assoc, List.singleton_append, placeholdersFrom_cons,
    hstep]

theorem placeholdersFrom_inBraces {p : Placeholder} (hread : readBrace? content = some p)
    (hclosing : '\x7d' ∉ content) (rest : List Char) :
    placeholdersFrom 0 (inBraces content ++ rest) = p :: placeholdersFrom 0 rest := by
  have hstep : step? '\x7b' (content ++ '\x7d' :: rest) = some (p, rest) := by
    rw [step?, if_neg (by decide), if_pos rfl, readUpTo?, Text.splitFirst_append_cons hclosing]
    exact congrArg (Option.map _) hread
  rw [inBraces, List.cons_append, List.append_assoc, List.singleton_append, placeholdersFrom_cons,
    hstep]

/-- No placeholder begins in literal text. -/
theorem placeholdersFrom_literal (h : ∀ c ∈ l, c ≠ '<' ∧ c ≠ '\x7b') (rest : List Char) :
    placeholdersFrom 0 (l ++ rest) = placeholdersFrom 0 rest := by
  induction l with
  | nil => rfl
  | cons c l ih =>
    rw [List.forall_mem_cons] at h
    have hstep : step? c (l ++ rest) = none := by rw [step?, if_neg h.1.1, if_neg h.1.2]
    rw [List.cons_append, placeholdersFrom_cons, hstep]
    exact ih h.2

/-! ### Whole paths -/

/-- A piece in front of a text is read by itself. -/
theorem placeholdersFrom_chars_append (p : Piece) (rest : List Char) :
    placeholdersFrom 0 (p.chars ++ rest) = p.placeholder?.toList ++ placeholdersFrom 0 rest := by
  have hangle : isWordChar '>' = false := by decide
  have hbrace : isWordChar '\x7d' = false := by decide
  cases p with
  | literal text no_opening => exact placeholdersFrom_literal no_opening rest
  | angle name =>
    exact placeholdersFrom_inAngles (readAngle?_chars name) (name.notMem_chars hangle) rest
  | converted converter name =>
    have hclosing : '>' ∉ converter.chars ++ ':' :: name.chars := by
      simp [converter.notMem_chars, name.notMem_chars, hangle]
    exact placeholdersFrom_inAngles (readAngle?_converted converter name) hclosing rest
  | applied converter arguments no_closing name =>
    have hclosing : '>' ∉ converter.chars ++ '(' :: (arguments ++ ')' :: ':' :: name.chars) := by
      simp [converter.notMem_chars, name.notMem_chars, no_closing, hangle]
    exact placeholdersFrom_inAngles (readAngle?_applied converter arguments name) hclosing rest
  | brace name =>
    exact placeholdersFrom_inBraces (readBrace?_chars name) (name.notMem_chars hbrace) rest
  | convertedBrace name converter ne_nil letters =>
    have hconverter : '\x7d' ∉ converter := fun hmem => absurd (letters _ hmem) (by decide)
    have hclosing : '\x7d' ∉ name.chars ++ ':' :: converter := by
      simp [name.notMem_chars, hconverter, hbrace]
    exact placeholdersFrom_inBraces (readBrace?_converted name ne_nil letters) hclosing rest

/-- **Reading what is written.** The placeholders of a path are those of the pieces that it is
written with, one after the other, and no other ones. -/
theorem placeholders_written (pieces : List Piece) :
    placeholders (written pieces) = pieces.filterMap Piece.placeholder? := by
  rw [placeholders, written, String.toList_ofList]
  induction pieces with
  | nil => rfl
  | cons p pieces ih =>
    rw [List.flatMap_cons, placeholdersFrom_chars_append, ih, List.filterMap_cons]
    cases p.placeholder? <;> rfl

example : placeholders "/\x7d>/<any(\x7bx\x7d,(a):<b):kind>-\x7bid:int\x7d\x7d/\x7bslug\x7d"
    = [⟨"kind", some "any"⟩, ⟨"id", none⟩, ⟨"slug", none⟩] := by decide

end ApiSurface.Routing
