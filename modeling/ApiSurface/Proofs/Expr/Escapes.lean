import ApiSurface.Expr.Escape

/-!
# Writing string literals

How a value is written between the quotes of a literal: characters that need it are written as an
escape of two characters, and in templates braces are doubled (`write`). A line end behind a
backslash may stand between any two of the written characters (`Sign`).

Reading goes through the text once and looks one character ahead. Each written character is read
back with any text behind it (`unescape_writeChar_append`), so the next one cannot be taken for a
part of it, whatever runs of backslashes and braces the value has. Literals are read back as the
value that they were written from (`unescape_written`).
-/

namespace ApiSurface.Expr

variable {raw template : Bool} {c : Char} {rest : List Char}

/-! ### The written form -/

/-- The characters that are written as escapes, each with the letter behind the backslash. -/
def escapes : List (Char × Char) := [
  ('\n', 'n'),
  ('\t', 't'),
  ('\r', 'r'),
  (Char.ofNat 0, '0'),
  ('\\', '\\'),
  ('\'', '\''),
  ('"', '"')]

/-- A character of a value as it is written in a literal that is not raw. -/
def writeChar (template : Bool) (c : Char) : List Char :=
  match escapes.find? fun e => e.1 == c with
  | some e => ['\\', e.2]
  | none => if template && isBrace c then [c, c] else [c]

/-- A value as it is written in a literal that is not raw. -/
def write (template : Bool) (value : List Char) : List Char := value.flatMap (writeChar template)

/-- What a literal is written with. -/
inductive Sign where
  /-- A character of the value. -/
  | char (c : Char)
  /-- The end of a line of the source, which is no part of the value. -/
  | lineEnd
deriving DecidableEq, Repr

namespace Sign

/-- How a sign is written. -/
def text (template : Bool) : Sign → List Char
  | char c => writeChar template c
  | lineEnd => ['\\', '\n']

/-- What a sign adds to the value. -/
def value : Sign → List Char
  | char c => [c]
  | lineEnd => []

end Sign

/-! ### Reading back -/

/-- A backslash is taken together with the character behind it. -/
theorem unescape_backslash (template : Bool) (c : Char) (rest : List Char) :
    unescape false template ('\\' :: c :: rest) = escaped c ++ unescape false template rest := by
  rw [unescape, if_pos ⟨rfl, rfl⟩]

theorem unescape_doubled (hc : isBrace c = true) (rest : List Char) :
    unescape raw true (c :: c :: rest) = c :: unescape raw true rest := by
  have hne : c ≠ '\\' := by
    rintro rfl
    exact absurd hc (by decide)
  rw [unescape, if_neg (fun h => hne h.1), if_pos (by simp [hc])]

/-- Any other character stands for itself, and what is behind it is read on its own. -/
theorem unescape_cons (hc : raw = true ∨ c ≠ '\\') (hbrace : (template && isBrace c) = false)
    (rest : List Char) : unescape raw template (c :: rest) = c :: unescape raw template rest := by
  have hescape : ¬ (c = '\\' ∧ raw = false) := by
    rintro ⟨rfl, rfl⟩
    simp at hc
  cases rest with
  | nil => rfl
  | cons d rest => rw [unescape, if_neg hescape, if_neg (by simp [hbrace])]

theorem escaped_of_mem_escapes : ∀ e ∈ escapes, escaped e.2 = [e.1] := by decide

/-- **A written character is read back**, with any text behind it. -/
theorem unescape_writeChar_append (template : Bool) (c : Char) (rest : List Char) :
    unescape false template (writeChar template c ++ rest) = c :: unescape false template rest := by
  rw [writeChar]
  split
  · next e he =>
    have hread := escaped_of_mem_escapes e (List.mem_of_find?_eq_some he)
    have hchar : e.1 = c := by simpa using List.find?_some he
    rw [List.cons_append, List.cons_append, unescape_backslash, hread, hchar]
    rfl
  · next hnone =>
    -- the backslash is one of the escaped characters
    have hne : c ≠ '\\' := by
      rintro rfl
      exact absurd hnone (by decide)
    split
    · next hbrace =>
      obtain ⟨rfl, hc⟩ := Bool.and_eq_true_iff.mp hbrace
      exact unescape_doubled hc rest
    · next hbrace => exact unescape_cons (.inr hne) (Bool.eq_false_iff.mpr hbrace) rest

theorem unescape_sign_append (template : Bool) (s : Sign) (rest : List Char) :
    unescape false template (s.text template ++ rest)
      = s.value ++ unescape false template rest := by
  cases s with
  | char c => exact unescape_writeChar_append template c rest
  | lineEnd => exact unescape_backslash template '\n' rest

theorem unescape_signs (template : Bool) (signs : List Sign) :
    unescape false template (signs.flatMap (Sign.text template)) = signs.flatMap Sign.value := by
  induction signs with
  | nil => rfl
  | cons s signs ih => rw [List.flatMap_cons, List.flatMap_cons, unescape_sign_append, ih]

/-- In a raw literal that is no template every character stands for itself. -/
theorem unescape_raw (l : List Char) : unescape true false l = l := by
  induction l with
  | nil => rfl
  | cons c l ih => rw [unescape_cons (.inl rfl) rfl, ih]

/-- **Literals are read back.** What is written is read back as the value, in templates and in other
literals. Line ends behind backslashes change nothing, wherever they stand between the written
characters and however many there are. A raw literal that is no template is its own value. -/
theorem unescape_written (template : Bool) :
    (∀ value, unescape false template (write template value) = value) ∧
    (∀ signs : List Sign, unescape false template (signs.flatMap (Sign.text template))
      = unescape false template (write template (signs.flatMap Sign.value))) ∧
    ∀ l, unescape true false l = l := by
  have hwrite : ∀ value, unescape false template (write template value) = value := by
    intro value
    -- a value by itself is written with signs that are all characters
    have hsigns := unescape_signs template (value.map .char)
    rw [List.flatMap_map, List.flatMap_map] at hsigns
    exact hsigns.trans (List.flatMap_singleton' value)
  refine ⟨hwrite, fun signs => ?_, unescape_raw⟩
  rw [unescape_signs, hwrite]

end ApiSurface.Expr
