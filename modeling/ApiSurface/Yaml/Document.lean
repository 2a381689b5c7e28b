import ApiSurface.Yaml.Node
import ApiSurface.Yaml.Reading

/-!
# Documents

A text that holds one document at most. Directives may stand in front of the mark at its start,
and marks for its end behind it.
-/

namespace ApiSurface.Yaml

/-- A document: its value and the values that references in it stand for. -/
structure Document where
  root : Yaml
  /-- The values with anchors, by number, in the order in which they start. -/
  anchors : List (Nat × Yaml)
  /-- The number of parts that the value is written with. -/
  size : Nat

namespace Document

/-- The document with the given value. -/
def ofRoot (v : Yaml) : Document := ⟨v, v.anchors, v.size⟩

/-- A document in which nothing is written. -/
def empty : Document := ofRoot absent

/-- What handles of tags are short for when no directive tells it. -/
def standardHandles : List (String × String) := [("!", "!"), ("!!", "tag:yaml.org,2002:")]

/-- Read directives. A version is told once and must be known; a handle is explained once. -/
def directives? (versioned : Bool) (handles : List (String × String)) :
    List Token → Option (List (String × String) × List Token)
  | .version major minor :: r =>
    if versioned ∨ major ≠ 1 ∨ (minor ≠ 1 ∧ minor ≠ 2) then none
    else directives? true handles r
  | .handle name expansion :: r =>
    if handles.any fun h => h.1 = name then none
    else directives? versioned (handles ++ [(name, expansion)]) r
  | l => some (handles, l)

/-- A value and the tokens behind it. -/
def value? (handles : List (String × String)) (l : List Token) : Option (Yaml × List Token) :=
  node? (handles ++ standardHandles) (4 * l.length + 4) .block l

/-- Whether a document ends in front of some tokens, or another one starts. -/
def isOver : List Token → Bool
  | [] => true
  | .version _ _ :: _ => true
  | .handle _ _ :: _ => true
  | .documentStart :: _ => true
  | .documentEnd :: _ => true
  | _ => false

/-- The value of a document. Directives need the mark at the start of the document, behind which the
value may be missing. -/
def root? (l : List Token) : Option (Yaml × List Token) := do
  let (handles, rest) ← directives? false [] l
  match rest with
  | .documentStart :: r => if isOver r then some (absent, r) else value? handles r
  | rest => if rest.length = l.length then value? handles rest else none

/-- Read a text. -/
def read? (text : String) : Option Document := do
  let chars := text.toList
  if !chars.all isAllowed then none
  else
    match ← tokens? chars with
    | [] => some empty
    | l =>
      let (v, rest) ← root? l
      if rest.all (· = .documentEnd) then some (ofRoot v) else none

end Document

end ApiSurface.Yaml
