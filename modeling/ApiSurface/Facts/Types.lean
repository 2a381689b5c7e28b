import ApiSurface.Json
import ApiSurface.Types.Descriptor

/-!
# Types in the data format

How literal values, descriptors and annotations are written.
-/

namespace ApiSurface

open ApiSurface.Numeral (Number)

/-- A literal value is written as itself where the data format has it, else as text. -/
def LiteralValue.toJson : LiteralValue → Json
  | .str s => .str s
  | .int i => .num (.int i)
  | .bool b => .bool b
  | .null => .null
  | .other text => .str text

namespace Descriptor

/-- An object whose first member names the constructor. -/
def tagged (kind : String) (members : List (String × Json)) : Json :=
  .obj (("kind", .str kind) :: members)

mutual
/-- A descriptor is an object that names its constructor. -/
def toJson : Descriptor → Json
  | primitive name => tagged "primitive" [("name", .str name)]
  | optional d => tagged "optional" [("inner", toJson d)]
  | union ms => tagged "union" [("members", .arr (toJsonAll ms))]
  | list d => tagged "list" [("element", toJson d)]
  | dict k v => tagged "dict" [("key", toJson k), ("value", toJson v)]
  | set d => tagged "set" [("element", toJson d)]
  | tuple es variadic =>
    tagged "tuple" [("elements", .arr (toJsonAll es)), ("variadic", .bool variadic)]
  | literal vs => tagged "literal" [("values", .arr (vs.map LiteralValue.toJson))]
  | callable ps anyParams r => tagged "callable"
    [("params", .arr (toJsonAll ps)), ("any_params", .bool anyParams), ("returns", toJson r)]
  | generic base args =>
    tagged "generic" [("base", .str base), ("args", .arr (toJsonAll args))]
  | reference name => tagged "reference" [("name", .str name)]
  | unknown => tagged "unknown" []

/-- Several descriptors. -/
def toJsonAll : List Descriptor → List Json
  | [] => []
  | d :: ds => toJson d :: toJsonAll ds
end

end Descriptor

def TypeInfo.toJson (t : TypeInfo) : Json :=
  .obj ([("descriptor", t.descriptor.toJson)] ++ Json.member? "alias" .str t.aliasName ++
    Json.members? "metadata" Json.strs t.metadata)

end ApiSurface
