import ApiSurface.Yaml.Gap

/-!
# Scalars between quotes

A scalar between double quotes has escapes, one between single quotes only writes a quote twice.
Both may span lines, but not documents. The readers start behind the first quote and give back
what follows the last one.
-/

namespace ApiSurface.Yaml

/-- The value of a hexadecimal digit. -/
def hexDigit? (c : Char) : Option Nat :=
  if '0' ≤ c ∧ c ≤ '9' then some (c.toNat - 48)
  else if 'a' ≤ c ∧ c ≤ 'f' then some (c.toNat - 87)
  else if 'A' ≤ c ∧ c ≤ 'F' then some (c.toNat - 55)
  else none

/-- The character that some hexadecimal digits name. -/
def hexChar? (digits : List Char) : Option Char := do
  let values ← digits.mapM hexDigit?
  let n := values.foldl (fun n d => 16 * n + d) 0
  if h : n.isValidChar then some (Char.ofNatAux n h) else none

/-- The character that a letter behind a backslash stands for. -/
def escape? (c : Char) : Option Char :=
  match c with
  | '0' => some '\x00'
  | 'a' => some '\x07'
  | 'b' => some '\x08'
  | 't' => some '\t'
  | '\t' => some '\t'
  | 'n' => some '\n'
  | 'v' => some '\x0b'
  | 'f' => some '\x0c'
  | 'r' => some '\r'
  | 'e' => some '\x1b'
  | ' ' => some ' '
  | '"' => some '"'
  | '/' => some '/'
  | '\\' => some '\\'
  | 'N' => some '\u0085'
  | '_' => some '\u00a0'
  | 'L' => some '\u2028'
  | 'P' => some '\u2029'
  | _ => none

/-- The number of hexadecimal digits that a letter behind a backslash announces. -/
def hexLength? (c : Char) : Option Nat :=
  match c with
  | 'x' => some 2
  | 'u' => some 4
  | 'U' => some 8
  | _ => none

/-- What an escape stands for, from behind its backslash on. -/
def escaped? (c : Char) (rest : List Glyph) : Option (Piece × Nat) :=
  if isBreak c then some (.continuation, 0)
  else
    match hexLength? c with
    | some n =>
      if rest.length < n then none
      else (hexChar? ((rest.take n).map Glyph.char)).map fun d => (.char d, n)
    | none => (escape? c).map fun d => (.char d, 0)

/-- The pieces of a scalar between double quotes. -/
def doubleQuoted : List Glyph → Option (List Piece × List Glyph)
  | [] => none
  | g :: r =>
    if (Glyph.boundary? (g :: r)).isSome then none
    else if g.char = '"' then some ([], r)
    else if g.char = '\\' then
      match r with
      | [] => none
      | e :: r => do
        let (piece, digits) ← escaped? e.char r
        let (pieces, rest) ← doubleQuoted (r.drop digits)
        some (piece :: pieces, rest)
    else do
      let (pieces, rest) ← doubleQuoted r
      some (.ofGlyph g :: pieces, rest)
termination_by l => l.length
decreasing_by all_goals simp only [List.length_cons, List.length_drop]; omega

/-- The pieces of a scalar between single quotes. -/
def singleQuoted : List Glyph → Option (List Piece × List Glyph)
  | [] => none
  | g :: r =>
    if (Glyph.boundary? (g :: r)).isSome then none
    else if g.char = '\'' then
      match r with
      | [] => some ([], [])
      | q :: r =>
        if q.char = '\'' then do
          let (pieces, rest) ← singleQuoted r
          some (.char '\'' :: pieces, rest)
        else some ([], q :: r)
    else do
      let (pieces, rest) ← singleQuoted r
      some (.ofGlyph g :: pieces, rest)

end ApiSurface.Yaml
