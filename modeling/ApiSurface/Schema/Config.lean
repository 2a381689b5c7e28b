import ApiSurface.Expr.Arguments
import ApiSurface.Facts.Schema
import ApiSurface.KeyedList

/-!
# Model settings

Settings are given as keywords of the class statement, in a nested class, or as a value assigned
in the body. All three say the same things, one key at a time.
-/

namespace ApiSurface.SchemaConfig

open ApiSurface.Syntax (Node)
open ApiSurface.Expr (Arguments stripParens boolValue?)

/-- The text of a setting that is not a flag. -/
def settingText (value : Node) : String :=
  match Expr.stringList? value with
  | some [only] => only
  | _ => Expr.summary value

/-- The text of the setting for extra fields: a string, or the last segment of a name. -/
def extraText (value : Node) : String :=
  (Expr.stringLiteral? value).getD (Text.afterLastString '.' (stripParens value).text)

/-- The settings with one key set. A flag whose value is not a truth value counts as any other
setting. -/
def set (c : SchemaConfig) (key : String) (value : Node) : SchemaConfig :=
  match key, boolValue? value with
  | "frozen", some v => { c with frozen := v }
  | "allow_mutation", some v => { c with frozen := !v }
  | "populate_by_name", some v => { c with populateByName := v }
  | "allow_population_by_field_name", some v => { c with populateByName := v }
  | "use_enum_values", some v => { c with useEnumValues := v }
  | "from_attributes", some v => { c with fromAttributes := v }
  | "orm_mode", some v => { c with fromAttributes := v }
  | "total", some v => { c with total := some v }
  | "extra", _ => { c with extra := some (extraText value) }
  | _, _ => { c with other := KeyedList.insert key (settingText value) c.other }

/-- The settings with several keys set, first to last. -/
def setAll (c : SchemaConfig) (entries : List (String × Node)) : SchemaConfig :=
  entries.foldl (fun c (key, value) => c.set key value) c

/-- The target and the value of an assignment statement to a plain name. -/
def assignmentOf? (statement : Node) : Option (String × Node) := do
  let assignment ← statement.firstNamed?
  if assignment.kind = "assignment" then
    let left ← assignment.childByField? "left"
    let right ← assignment.childByField? "right"
    if left.kind = "identifier" then pure (left.text, right) else none
  else none

/-- The settings with what a nested class of settings assigns. -/
def readClass (c : SchemaConfig) (definition : Node) : SchemaConfig :=
  match definition.childByField? "body" with
  | some body => c.setAll (body.namedChildren.filterMap assignmentOf?)
  | none => c

/-- The settings with what a value that is assigned to the settings variable contains. -/
def readValue (c : SchemaConfig) (value : Node) : SchemaConfig :=
  let value := stripParens value
  match value.kind with
  | "call" => c.setAll (Arguments.ofCall value).keywords
  | "dictionary" => c.setAll (Expr.dictEntries value)
  | _ => c

end ApiSurface.SchemaConfig
