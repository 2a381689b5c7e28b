import ApiSurface.Yaml.Token

/-!
# Values from tokens

The grammar of values. A value is a reference or has properties, an anchor and a tag, and a
content; the content may be missing when there is a property. Values in collections may be missing
as well. Each reader gives back the tokens behind what it read.
-/

namespace ApiSurface.Yaml

/-- Where a value stands, which decides what collections can be written there. -/
inductive Place where
  /-- Between brackets: no blocks. -/
  | flow
  | block
  /-- In a pair of a block mapping: the items of a sequence need no indentation. -/
  | pair
deriving DecidableEq, Repr

/-- The anchor and the tag of a value. -/
structure Properties where
  anchor : Option Nat
  tag : Option (String × String)

namespace Properties

/-- Read properties; either of them may come first. -/
def take : List Token → Properties × List Token
  | .anchor n :: .tag h s :: r => (⟨some n, some (h, s)⟩, r)
  | .tag h s :: .anchor n :: r => (⟨some n, some (h, s)⟩, r)
  | .anchor n :: r => (⟨some n, none⟩, r)
  | .tag h s :: r => (⟨none, some (h, s)⟩, r)
  | l => (⟨none, none⟩, l)

def isEmpty (p : Properties) : Bool := p.anchor.isNone && p.tag.isNone

/-- The tag in full, if there is one. Its handle must be known. -/
def tag? (handles : List (String × String)) (p : Properties) : Option (Option String) :=
  match p.tag with
  | none => some none
  | some ("", suffix) => some (some suffix)
  | some (handle, suffix) =>
    (handles.find? fun h => h.1 = handle).map fun h => some (h.2 ++ suffix)

/-- A value with the anchor. -/
def mark (p : Properties) (v : Yaml) : Yaml := p.anchor.elim v (anchored · v)

end Properties

/-- Whether a value is missing where an item of a block is expected. -/
def itemMissing : List Token → Bool
  | .dash :: _ => true
  | .blockEnd :: _ => true
  | _ => false

/-- Whether a value is missing where a part of a pair of a block is expected. -/
def partMissing : List Token → Bool
  | .key :: _ => true
  | .value :: _ => true
  | .blockEnd :: _ => true
  | _ => false

/-- Whether a value is missing where one is expected in front of a comma or a closing bracket. -/
def endsFlow (closing : Token) : List Token → Bool
  | t :: _ => t = .comma || t = closing
  | [] => false

/-- What stands in front of an item between brackets: a comma, unless it is the first one. -/
def afterComma? (first : Bool) : List Token → Option (List Token)
  | l => if first then some l else
    match l with
    | .comma :: r => some r
    | _ => none

mutual
/-- A value. The handles are those that tags can be shortened with; the fuel bounds the number of
steps. -/
def node? (handles : List (String × String)) : Nat → Place → List Token →
    Option (Yaml × List Token)
  | 0, _, _ => none
  | _ + 1, _, .reference n :: r => some (.reference n, r)
  | fuel + 1, place, l => do
    let (p, l) := Properties.take l
    let tag ← p.tag? handles
    let (v, rest) ← content? handles fuel place p tag l
    some (p.mark v, rest)

/-- The content of a value with the given properties. A scalar whose tag is a lone exclamation
mark has no tag. -/
def content? (handles : List (String × String)) : Nat → Place → Properties → Option String →
    List Token → Option (Yaml × List Token)
  | 0, _, _, _, _ => none
  | fuel + 1, place, p, tag, l =>
    match l with
    | .scalar style text :: r => some (.scalar style (tag.filter (· ≠ "!")) text, r)
    | .flowSequence :: r => (flowItems? handles fuel true r).map fun (v, rest) => (.seq v, rest)
    | .flowMapping :: r => (flowPairs? handles fuel true r).map fun (v, rest) => (.map v, rest)
    | l =>
      match place, l with
      | .pair, .dash :: _ => (looseItems? handles fuel l).map fun (v, rest) => (.seq v, rest)
      | .pair, .blockSequence :: r | .block, .blockSequence :: r =>
        (blockItems? handles fuel r).map fun (v, rest) => (.seq v, rest)
      | .pair, .blockMapping :: r | .block, .blockMapping :: r =>
        (blockPairs? handles fuel r).map fun (v, rest) => (.map v, rest)
      | _, l => if p.isEmpty then none else some (.scalar .plain tag "", l)

/-- The items of a block. -/
def blockItems? (handles : List (String × String)) : Nat → List Token →
    Option (List Yaml × List Token)
  | 0, _ => none
  | _ + 1, .blockEnd :: r => some ([], r)
  | fuel + 1, .dash :: r => do
    let (v, r) ← if itemMissing r then some (absent, r) else node? handles fuel .block r
    let (items, rest) ← blockItems? handles fuel r
    some (v :: items, rest)
  | _ + 1, _ => none

/-- Items that stand at the column of the key in front of them. They end where no dash follows. -/
def looseItems? (handles : List (String × String)) : Nat → List Token →
    Option (List Yaml × List Token)
  | 0, _ => none
  | fuel + 1, .dash :: r => do
    let (v, r) ←
      if itemMissing r || partMissing r then some (absent, r) else node? handles fuel .block r
    let (items, rest) ← looseItems? handles fuel r
    some (v :: items, rest)
  | _ + 1, l => some ([], l)

/-- The pairs of a block. -/
def blockPairs? (handles : List (String × String)) : Nat → List Token →
    Option (List (Yaml × Yaml) × List Token)
  | 0, _ => none
  | _ + 1, .blockEnd :: r => some ([], r)
  | fuel + 1, .key :: r => do
    let (k, r) ← if partMissing r then some (absent, r) else node? handles fuel .pair r
    let (v, r) ←
      match r with
      | .value :: r => if partMissing r then some (absent, r) else node? handles fuel .pair r
      | r => some (absent, r)
    let (pairs, rest) ← blockPairs? handles fuel r
    some ((k, v) :: pairs, rest)
  | _ + 1, _ => none

/-- The items up to a closing bracket. A pair counts as a mapping of its own. -/
def flowItems? (handles : List (String × String)) : Nat → Bool → List Token →
    Option (List Yaml × List Token)
  | 0, _, _ => none
  | _ + 1, _, .flowSequenceEnd :: r => some ([], r)
  | fuel + 1, first, l => do
    match ← afterComma? first l with
    | .flowSequenceEnd :: r => some ([], r)
    | .key :: r =>
      let (k, r) ← flowItemKey? handles fuel r
      let (v, r) ← flowValue? handles fuel .flowSequenceEnd r
      let (items, rest) ← flowItems? handles fuel false r
      some (.map [(k, v)] :: items, rest)
    | l =>
      let (v, r) ← node? handles fuel .flow l
      let (items, rest) ← flowItems? handles fuel false r
      some (v :: items, rest)

/-- The key of a pair that is an item. A missing key takes the mark behind it with it. -/
def flowItemKey? (handles : List (String × String)) : Nat → List Token →
    Option (Yaml × List Token)
  | 0, _ => none
  | fuel + 1, l =>
    match l with
    | .value :: r => some (absent, r)
    | .comma :: r => some (absent, r)
    | .flowSequenceEnd :: r => some (absent, r)
    | l => node? handles fuel .flow l

/-- The value of a pair up to a closing bracket, if there is one. -/
def flowValue? (handles : List (String × String)) : Nat → Token → List Token →
    Option (Yaml × List Token)
  | 0, _, _ => none
  | fuel + 1, closing, l =>
    match l with
    | .value :: r => if endsFlow closing r then some (absent, r) else node? handles fuel .flow r
    | l => some (absent, l)

/-- The pairs up to a closing bracket. A value that stands alone is a key. -/
def flowPairs? (handles : List (String × String)) : Nat → Bool → List Token →
    Option (List (Yaml × Yaml) × List Token)
  | 0, _, _ => none
  | _ + 1, _, .flowMappingEnd :: r => some ([], r)
  | fuel + 1, first, l => do
    match ← afterComma? first l with
    | .flowMappingEnd :: r => some ([], r)
    | .key :: r =>
      let (k, r) ←
        if r.head? = some .value ∨ endsFlow .flowMappingEnd r then some (absent, r)
        else node? handles fuel .flow r
      let (v, r) ← flowValue? handles fuel .flowMappingEnd r
      let (pairs, rest) ← flowPairs? handles fuel false r
      some ((k, v) :: pairs, rest)
    | l =>
      let (k, r) ← node? handles fuel .flow l
      let (pairs, rest) ← flowPairs? handles fuel false r
      some ((k, absent) :: pairs, rest)
end

end ApiSurface.Yaml
