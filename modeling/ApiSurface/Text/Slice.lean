/-!
# Byte positions

Positions in a text count the bytes of its UTF-8 form. A slice is defined only when both of its
ends lie between characters.
-/

namespace ApiSurface.Text

/-- Drop `n` bytes, when a character boundary lies there. -/
def dropBytes : Nat → List Char → Option (List Char)
  | 0, l => some l
  | _ + 1, [] => none
  | n + 1, c :: r => if c.utf8Size ≤ n + 1 then dropBytes (n + 1 - c.utf8Size) r else none

/-- The number of bytes of a text. -/
def byteSize : List Char → Nat
  | [] => 0
  | c :: r => c.utf8Size + byteSize r

/-- The text between two byte positions: `none` when they are out of order, outside the text or
inside a character. -/
def slice? (s : String) (first last : Nat) : Option String :=
  let bytes := s.toUTF8
  if first ≤ last ∧ last ≤ bytes.size then String.fromUTF8? (bytes.extract first last) else none

/-- The text between two byte positions, empty when there is none. -/
def sliceD (s : String) (first last : Nat) : String := (slice? s first last).getD ""

theorem dropBytes_byteSize (l m : List Char) : dropBytes (byteSize l) (l ++ m) = some m := by
  induction l with
  | nil => simp [byteSize, dropBytes]
  | cons c r ih =>
    have hpos := Char.utf8Size_pos c
    obtain ⟨n, hn⟩ : ∃ n, byteSize (c :: r) = n + 1 :=
      ⟨byteSize (c :: r) - 1, by simp [byteSize]; omega⟩
    have hle : c.utf8Size ≤ byteSize (c :: r) := by simp [byteSize]
    have hsub : byteSize (c :: r) - c.utf8Size = byteSize r := by simp [byteSize]
    rw [hn] at hle hsub ⊢
    simp only [List.cons_append, dropBytes, hle, if_true, hsub]
    exact ih

end ApiSurface.Text
