import ApiSurface.Facts.Constraints
import ApiSurface.Facts.Http

/-!
# Data shapes

Facts about the classes of a program: every class declaration as one file shows it, and the
schemas that the whole unit makes of them.
-/

namespace ApiSurface

/-- What makes a class a data shape. -/
inductive SchemaKind where
  | pydantic | typedDict | namedTuple | dataclass
deriving DecidableEq, Repr, Inhabited

def SchemaKind.name : SchemaKind → String
  | .pydantic => "pydantic"
  | .typedDict => "typed_dict"
  | .namedTuple => "named_tuple"
  | .dataclass => "dataclass"

/-- A field of a data shape. -/
structure SchemaField where
  name : String
  type : TypeInfo
  required : Bool
  default : Option String
  aliasName : Option String
  description : Option String
  constraints : Constraints
  /-- The class that declares the field, when it is inherited. -/
  inheritedFrom : Option String
deriving Inhabited, Repr

def SchemaField.toJson (f : SchemaField) : Json := .obj <|
  [("name", .str f.name), ("type", f.type.toJson), ("required", .bool f.required)] ++
  Json.member? "default" .str f.default ++ Json.member? "alias" .str f.aliasName ++
  Json.member? "description" .str f.description ++ f.constraints.toMember ++
  Json.member? "inherited_from" .str f.inheritedFrom

/-- Settings of a model. -/
structure SchemaConfig where
  frozen : Bool
  populateByName : Bool
  useEnumValues : Bool
  fromAttributes : Bool
  extra : Option String
  total : Option Bool
  /-- Settings without a field of their own, in the order of their names. -/
  other : List (String × String)
deriving DecidableEq, Inhabited, Repr

namespace SchemaConfig

/-- The settings of a model that sets none. -/
def plain : SchemaConfig := ⟨false, false, false, false, none, none, []⟩

def toJson (c : SchemaConfig) : Json := .obj <|
  [("frozen", .bool c.frozen), ("populate_by_name", .bool c.populateByName),
    ("use_enum_values", .bool c.useEnumValues), ("from_attributes", .bool c.fromAttributes)] ++
  Json.member? "extra" .str c.extra ++ Json.member? "total" .bool c.total ++
  Json.members? "other" (fun l => .obj (l.map fun (k, v) => (k, .str v))) c.other

end SchemaConfig

/-- A method that checks values. -/
structure Validator where
  method : String
  /-- Whether it checks a field or the whole model. -/
  kind : String
  fields : List String
deriving DecidableEq, Repr, Inhabited

def Validator.toJson (v : Validator) : Json := .obj <|
  [("method", .str v.method), ("kind", .str v.kind)] ++
  Json.members? "fields" Json.strs v.fields

/-- A base class as it is written, with what is needed to find it in the unit. -/
structure BaseRef where
  /-- The source text. -/
  written : String
  /-- The name of the class where it is declared. -/
  symbol : String
  /-- The module that the name is imported from. -/
  module : Option String
  /-- The full path of an imported name. -/
  qualified : Option String
deriving DecidableEq, Repr, Inhabited

def BaseRef.toJson (b : BaseRef) : Json := .obj <|
  [("written", .str b.written), ("symbol", .str b.symbol)] ++
  Json.member? "module" .str b.module ++ Json.member? "qualified" .str b.qualified

/-- A class, data shape or not. -/
structure ClassDecl where
  name : String
  span : Span
  bases : List BaseRef
  /-- The kind, when the class itself shows it. -/
  directKind : Option SchemaKind
  isEnum : Bool
  enumValues : List LiteralValue
  typeParams : List String
  fields : List SchemaField
  config : SchemaConfig
  validators : List Validator
  doc : Option String
deriving Inhabited, Repr

def ClassDecl.toJson (c : ClassDecl) : Json := .obj <|
  [("name", .str c.name), ("span", c.span.toJson),
    ("bases", .arr (c.bases.map BaseRef.toJson))] ++
  Json.member? "direct_kind" (fun k => .str k.name) c.directKind ++
  [("is_enum", .bool c.isEnum)] ++
  Json.members? "enum_values" (fun l => .arr (l.map LiteralValue.toJson)) c.enumValues ++
  [("type_params", Json.strs c.typeParams), ("fields", .arr (c.fields.map SchemaField.toJson)),
    ("config", c.config.toJson), ("validators", .arr (c.validators.map Validator.toJson))] ++
  Json.member? "doc" .str c.doc

/-- A data shape. -/
structure Schema where
  file : String
  span : Span
  name : String
  kind : SchemaKind
  bases : List String
  typeParams : List String
  fields : List SchemaField
  config : SchemaConfig
  validators : List Validator
  doc : Option String
  degradations : Degradations
deriving Inhabited, Repr

namespace Schema

/-- The place that a schema is listed by. -/
def location (s : Schema) : String × Span := (s.file, s.span)

def toJson (s : Schema) : Json := .obj <|
  [("file", .str s.file), ("span", s.span.toJson), ("name", .str s.name),
    ("kind", .str s.kind.name), ("bases", Json.strs s.bases)] ++
  Json.members? "type_params" Json.strs s.typeParams ++
  [("fields", .arr (s.fields.map SchemaField.toJson)), ("config", s.config.toJson)] ++
  Json.members? "validators" (fun l => .arr (l.map Validator.toJson)) s.validators ++
  Json.member? "doc" .str s.doc ++ s.degradations.toMember

end Schema

end ApiSurface
