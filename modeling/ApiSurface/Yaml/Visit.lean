import ApiSurface.Yaml.Document

/-!
# Visits

How values of a document are read: texts, truth values, sequences and mappings. A reader fails
when the value has another form. It looks through anchors and follows references; since a few
references can make a short document stand for a long one, a visit counts how many it follows,
and fails when they are too many for the size of the document.
-/

namespace ApiSurface.Yaml

/-- A visit of values of a document, which may fail. The state is the number of references followed
so far. -/
abbrev Visit := StateT Nat Option

namespace Document

/-- The number of references that may be followed for each part of a document. -/
def followsPerPart : Nat := 100

/-- Count a reference, unless too many have been followed. -/
def countFollow (d : Document) : Visit Unit := do
  let follows ← get
  if followsPerPart * d.size ≤ follows then failure else set (follows + 1)

/-- What a value stands for, without its anchor. Of several anchors with one number the last one
counts. -/
def follow (d : Document) : Yaml → Visit Yaml
  | .reference n => do
    d.countFollow
    (d.anchors.reverse.find? fun a => a.1 = n).map (·.2)
  | .anchored _ v => pure v
  | v => pure v

/-- The text of a scalar, whatever its tag. -/
def text (d : Document) (v : Yaml) : Visit String := do
  match ← d.follow v with
  | .scalar _ _ text => pure text
  | _ => failure

/-- The tag of truth values. -/
def boolTag : String := "tag:yaml.org,2002:bool"

/-- The tag of the value that stands for nothing. -/
def nullTag : String := "tag:yaml.org,2002:null"

/-- The truth value that a text names. -/
def truth? (text : String) : Option Bool :=
  if ["true", "True", "TRUE"].contains text then some true
  else if ["false", "False", "FALSE"].contains text then some false
  else none

/-- A truth value is a plain scalar, or a literal one that has its tag. -/
def bool (d : Document) (v : Yaml) : Visit Bool := do
  match ← d.follow v with
  | .scalar .plain _ text => truth? text
  | .scalar .literal (some tag) text => if tag = boolTag then truth? text else failure
  | _ => failure

/-- Whether a text names nothing. -/
def isNull (text : String) : Bool := ["~", "null", "Null", "NULL"].contains text

/-- Whether a value stands for nothing: a plain scalar that names nothing. It may be empty unless
it has a tag; with the tag of null it must name nothing, and with another tag it does not. -/
def isNothing? : Yaml → Option Bool
  | .scalar .plain none text => some (text = "" || isNull text)
  | .scalar .plain (some tag) text =>
    if tag ≠ nullTag then some false else if isNull text then some true else none
  | _ => some false

/-- A value that may be null. -/
def nullable {α : Type} (read : Document → Yaml → Visit α) (d : Document) (v : Yaml) :
    Visit (Option α) := do
  let v ← d.follow v
  if ← isNothing? v then pure none else some <$> read d v

/-- The items of a sequence, each read in the same way. A sequence that is absent is empty. -/
def list {α : Type} (read : Document → Yaml → Visit α) (d : Document) (v : Yaml) :
    Visit (List α) := do
  match ← d.follow v with
  | .seq items => items.mapM (read d)
  | .scalar .plain _ "" => pure []
  | _ => failure

/-- The pairs of a mapping whose keys are scalars. A mapping that is absent is empty. -/
def pairs (d : Document) (v : Yaml) : Visit (List (String × Yaml)) := do
  match ← d.follow v with
  | .map pairs => pairs.mapM fun (k, v) => do pure (← d.text k, v)
  | .scalar .plain _ "" => pure []
  | _ => failure

/-- The values of a key. -/
def valuesOf (pairs : List (String × Yaml)) (key : String) : List Yaml :=
  pairs.filterMap fun (k, v) => if k = key then some v else none

/-- A setting that must be there. -/
def required {α : Type} (d : Document) (pairs : List (String × Yaml)) (key : String)
    (read : Document → Yaml → Visit α) : Visit α :=
  match valuesOf pairs key with
  | [v] => read d v
  | _ => failure

/-- A setting with a default. -/
def optional {α : Type} (d : Document) (pairs : List (String × Yaml)) (key : String)
    (read : Document → Yaml → Visit α) (default : α) : Visit α :=
  match valuesOf pairs key with
  | [] => pure default
  | [v] => read d v
  | _ => failure

end Document

end ApiSurface.Yaml
