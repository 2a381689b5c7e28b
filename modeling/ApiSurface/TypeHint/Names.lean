import ApiSurface.Catalog.Builtin

/-!
# Names in annotations

The names that mean something special in a type annotation: constructs that take arguments, names
of primitive types, and calls that describe a constrained type.
-/

namespace ApiSurface.TypeHint

/-- A construct that takes type arguments. -/
inductive Form where
  | list | dict | set | tuple | optional | union | literal | callable | annotated | type
  /-- Stands around a type and becomes metadata. -/
  | qualifier (name : String)
deriving DecidableEq, Repr, Inhabited

/-- The constructs by their paths. -/
def forms : List (String × Form) := [
  ("list", .list),
  ("typing.List", .list),
  ("typing.Sequence", .list),
  ("typing.MutableSequence", .list),
  ("typing.Collection", .list),
  ("collections.abc.Sequence", .list),
  ("collections.abc.MutableSequence", .list),
  ("collections.abc.Collection", .list),
  ("dict", .dict),
  ("typing.Dict", .dict),
  ("typing.Mapping", .dict),
  ("typing.MutableMapping", .dict),
  ("typing.DefaultDict", .dict),
  ("typing.OrderedDict", .dict),
  ("collections.defaultdict", .dict),
  ("collections.OrderedDict", .dict),
  ("collections.abc.Mapping", .dict),
  ("collections.abc.MutableMapping", .dict),
  ("set", .set),
  ("frozenset", .set),
  ("typing.Set", .set),
  ("typing.FrozenSet", .set),
  ("typing.AbstractSet", .set),
  ("typing.MutableSet", .set),
  ("collections.abc.Set", .set),
  ("collections.abc.MutableSet", .set),
  ("tuple", .tuple),
  ("typing.Tuple", .tuple),
  ("typing.Optional", .optional),
  ("typing.Union", .union),
  ("typing.Literal", .literal),
  ("typing_extensions.Literal", .literal),
  ("typing.Callable", .callable),
  ("collections.abc.Callable", .callable),
  ("typing.Annotated", .annotated),
  ("typing_extensions.Annotated", .annotated),
  ("type", .type),
  ("typing.Type", .type),
  ("typing.Final", .qualifier "Final"),
  ("typing.ClassVar", .qualifier "ClassVar"),
  ("typing.Required", .qualifier "Required"),
  ("typing.NotRequired", .qualifier "NotRequired"),
  ("typing.ReadOnly", .qualifier "ReadOnly"),
  ("typing_extensions.Required", .qualifier "Required"),
  ("typing_extensions.NotRequired", .qualifier "NotRequired"),
  ("typing_extensions.ReadOnly", .qualifier "ReadOnly")]

/-- The primitive types by their paths. -/
def primitives : List (String × String) := [
  ("str", "string"),
  ("int", "int"),
  ("float", "float"),
  ("bool", "bool"),
  ("bytes", "bytes"),
  ("bytearray", "bytes"),
  ("complex", "complex"),
  ("None", "none"),
  ("NoneType", "none"),
  ("object", "any"),
  ("typing.Any", "any"),
  ("typing_extensions.Any", "any"),
  ("typing.Text", "string"),
  ("typing.AnyStr", "string"),
  ("typing.LiteralString", "string"),
  ("datetime.datetime", "datetime"),
  ("datetime.date", "date"),
  ("datetime.time", "time"),
  ("datetime.timedelta", "timedelta"),
  ("decimal.Decimal", "decimal"),
  ("uuid.UUID", "uuid"),
  ("pathlib.Path", "path"),
  ("pydantic.EmailStr", "string"),
  ("pydantic.NameEmail", "string"),
  ("pydantic.HttpUrl", "string"),
  ("pydantic.AnyUrl", "string"),
  ("pydantic.AnyHttpUrl", "string"),
  ("pydantic.SecretStr", "string"),
  ("pydantic.StrictStr", "string"),
  ("pydantic.SecretBytes", "bytes"),
  ("pydantic.StrictBytes", "bytes"),
  ("pydantic.StrictInt", "int"),
  ("pydantic.PositiveInt", "int"),
  ("pydantic.NegativeInt", "int"),
  ("pydantic.NonNegativeInt", "int"),
  ("pydantic.NonPositiveInt", "int"),
  ("pydantic.StrictFloat", "float"),
  ("pydantic.PositiveFloat", "float"),
  ("pydantic.NegativeFloat", "float"),
  ("pydantic.StrictBool", "bool"),
  ("pydantic.UUID4", "uuid")]

/-- What a call that describes a constrained type amounts to. -/
inductive ConstrainedKind where
  | scalar (name : String)
  | list
  | set
deriving DecidableEq, Repr, Inhabited

/-- The calls that describe constrained types. -/
def constrainedTypes : List (String × ConstrainedKind) := [
  ("pydantic.constr", .scalar "string"),
  ("pydantic.conint", .scalar "int"),
  ("pydantic.confloat", .scalar "float"),
  ("pydantic.conbytes", .scalar "bytes"),
  ("pydantic.condecimal", .scalar "decimal"),
  ("pydantic.condate", .scalar "date"),
  ("pydantic.conlist", .list),
  ("pydantic.conset", .set),
  ("pydantic.confrozenset", .set)]

/-- The entry of a name. A name without a dot may also stand for its namesake in `typing`. -/
def findTyping? {α : Type} (table : List (String × α)) (path : String) : Option α :=
  Catalog.find? table path <|>
    if Text.hasDot path then none else Catalog.find? table ("typing." ++ path)

def form? (path : String) : Option Form := findTyping? forms path

def primitive? (path : String) : Option String := findTyping? primitives path

def constrainedType? (path : String) : Option ConstrainedKind :=
  Catalog.find? constrainedTypes path

/-- Whether the name may head a type alias. -/
def isTypeConstructor (path : String) : Bool := (form? path).isSome

/-- Whether the name may be a member of a union in a type alias. -/
def isTypeName (path : String) : Bool := isTypeConstructor path || (primitive? path).isSome

end ApiSurface.TypeHint
