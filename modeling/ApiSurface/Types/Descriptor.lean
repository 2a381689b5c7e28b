import ApiSurface.Text.Quoted

/-!
# Type descriptors

The language-neutral shape of a type annotation, its equality, its display and the questions that
extractors ask about it.
-/

namespace ApiSurface

/-- A literal value in a type or in an enumeration. -/
inductive LiteralValue where
  | str (value : String)
  | int (value : Int)
  | bool (value : Bool)
  | null
  /-- Any other expression, kept as source text. -/
  | other (text : String)
deriving DecidableEq, Repr

/-- Literal values are shown as the source language writes them. -/
def LiteralValue.render : LiteralValue → String
  | .str s => Text.quoted s
  | .int i => toString i
  | .bool true => "True"
  | .bool false => "False"
  | .null => "None"
  | .other s => s

/-- The shape of a type. -/
inductive Descriptor where
  | primitive (name : String)
  | optional (inner : Descriptor)
  /-- Members in written order. -/
  | union (members : List Descriptor)
  | list (element : Descriptor)
  | dict (key value : Descriptor)
  | set (element : Descriptor)
  | tuple (elements : List Descriptor) (variadic : Bool)
  | literal (values : List LiteralValue)
  /-- With `anyParams` the parameters are not given. -/
  | callable (params : List Descriptor) (anyParams : Bool) (returns : Descriptor)
  | generic (base : String) (args : List Descriptor)
  /-- A class, by the last segment of its name. -/
  | reference (name : String)
  | unknown
deriving Inhabited, Repr

namespace Descriptor

/-! ### Equality -/

mutual
/-- Whether two descriptors are the same. -/
def same : Descriptor → Descriptor → Bool
  | primitive a, primitive b => a == b
  | optional a, optional b => same a b
  | union a, union b => sameAll a b
  | list a, list b => same a b
  | dict a b, dict c d => same a c && same b d
  | set a, set b => same a b
  | tuple a v, tuple b w => sameAll a b && v == w
  | literal a, literal b => a == b
  | callable a v r, callable b w s => sameAll a b && v == w && same r s
  | generic a l, generic b m => a == b && sameAll l m
  | reference a, reference b => a == b
  | unknown, unknown => true
  | _, _ => false

/-- Whether two lists of descriptors are the same. -/
def sameAll : List Descriptor → List Descriptor → Bool
  | [], [] => true
  | a :: as, b :: bs => same a b && sameAll as bs
  | _, _ => false
end

mutual
theorem eq_of_same : ∀ a b : Descriptor, same a b = true → a = b
  | primitive a, b, h => by cases b <;> simp_all [same]
  | optional a, b, h => by
    cases b <;> simp only [same, Bool.false_eq_true] at h
    rw [eq_of_same _ _ h]
  | union a, b, h => by
    cases b <;> simp only [same, Bool.false_eq_true] at h
    rw [eq_of_sameAll _ _ h]
  | list a, b, h => by
    cases b <;> simp only [same, Bool.false_eq_true] at h
    rw [eq_of_same _ _ h]
  | dict a c, b, h => by
    cases b <;> simp only [same, Bool.false_eq_true, Bool.and_eq_true] at h
    rw [eq_of_same _ _ h.1, eq_of_same _ _ h.2]
  | set a, b, h => by
    cases b <;> simp only [same, Bool.false_eq_true] at h
    rw [eq_of_same _ _ h]
  | tuple a v, b, h => by
    cases b <;> simp only [same, Bool.false_eq_true, Bool.and_eq_true, beq_iff_eq] at h
    rw [eq_of_sameAll _ _ h.1, h.2]
  | literal a, b, h => by cases b <;> simp_all [same]
  | callable a v r, b, h => by
    cases b <;> simp only [same, Bool.false_eq_true, Bool.and_eq_true, beq_iff_eq] at h
    rw [eq_of_sameAll _ _ h.1.1, h.1.2, eq_of_same _ _ h.2]
  | generic a l, b, h => by
    cases b <;> simp only [same, Bool.false_eq_true, Bool.and_eq_true, beq_iff_eq] at h
    rw [h.1, eq_of_sameAll _ _ h.2]
  | reference a, b, h => by cases b <;> simp_all [same]
  | unknown, b, h => by cases b <;> simp_all [same]

theorem eq_of_sameAll : ∀ a b : List Descriptor, sameAll a b = true → a = b
  | [], b, h => by cases b <;> simp_all [sameAll]
  | a :: as, [], h => by simp [sameAll] at h
  | a :: as, b :: bs, h => by
    simp only [sameAll, Bool.and_eq_true] at h
    rw [eq_of_same _ _ h.1, eq_of_sameAll _ _ h.2]
end

mutual
theorem same_self : ∀ a : Descriptor, same a a = true
  | primitive a => by simp [same]
  | optional a => by simp [same, same_self a]
  | union a => by simp [same, sameAll_self a]
  | list a => by simp [same, same_self a]
  | dict a b => by simp [same, same_self a, same_self b]
  | set a => by simp [same, same_self a]
  | tuple a v => by simp [same, sameAll_self a]
  | literal a => by simp [same]
  | callable a v r => by simp [same, sameAll_self a, same_self r]
  | generic a l => by simp [same, sameAll_self l]
  | reference a => by simp [same]
  | unknown => by simp [same]

theorem sameAll_self : ∀ a : List Descriptor, sameAll a a = true
  | [] => by simp [sameAll]
  | a :: as => by simp [sameAll, same_self a, sameAll_self as]
end

theorem same_iff {a b : Descriptor} : same a b = true ↔ a = b :=
  ⟨eq_of_same a b, fun h => h ▸ same_self a⟩

instance : DecidableEq Descriptor := fun a b =>
  if h : same a b = true then isTrue (eq_of_same a b h)
  else isFalse fun e => h (same_iff.2 e)

/-! ### Questions -/

/-- The descriptor of values that are always absent. -/
def none : Descriptor := primitive "none"

/-- The descriptor of values of any type. -/
def any : Descriptor := primitive "any"

/-- Whether nothing is known about the type. -/
def isUnknown : Descriptor → Bool
  | unknown => true
  | _ => false

/-- Whether the only value is the absent one. -/
def isNone : Descriptor → Bool
  | primitive name => name == "none"
  | _ => false

/-- Whether the absent value is allowed. -/
def isOptional (d : Descriptor) : Bool :=
  match d with
  | optional _ => true
  | d => d.isNone

/-- Allow the absent value, once. -/
def orNone (d : Descriptor) : Descriptor := if d.isOptional then d else optional d

/-- Strip one layer of `optional`. -/
def unwrapOptional : Descriptor → Descriptor
  | optional inner => inner
  | d => d

/-- The class that is referred to, looking through one layer of `optional`. -/
def referencedName? (d : Descriptor) : Option String :=
  match d.unwrapOptional with
  | reference name => some name
  | _ => Option.none

mutual
/-- Whether a class is referred to at the top or below layers of optional, list, set and
union. -/
def mentionsReference : Descriptor → Bool
  | reference _ => true
  | optional d => mentionsReference d
  | list d => mentionsReference d
  | set d => mentionsReference d
  | union ms => mentionsReferenceAny ms
  | _ => false

/-- Whether one of several descriptors mentions a class. -/
def mentionsReferenceAny : List Descriptor → Bool
  | [] => false
  | d :: ds => mentionsReference d || mentionsReferenceAny ds
end

/-! ### Display -/

/-- Texts with a comma and a space between neighbours. -/
def commaSeparated (l : List String) : String := ", ".intercalate l

mutual
/-- The display of a descriptor. -/
def render : Descriptor → String
  | primitive name => name
  | optional d => "Optional[" ++ render d ++ "]"
  | union ms => "Union[" ++ commaSeparated (renderAll ms) ++ "]"
  | list d => "List[" ++ render d ++ "]"
  | dict k v => "Dict[" ++ render k ++ ", " ++ render v ++ "]"
  | set d => "Set[" ++ render d ++ "]"
  | tuple es variadic =>
    "Tuple[" ++ commaSeparated (renderAll es) ++ (if variadic then ", ..." else "") ++ "]"
  | literal vs => "Literal[" ++ commaSeparated (vs.map LiteralValue.render) ++ "]"
  | callable ps anyParams r =>
    if anyParams then "Callable[..., " ++ render r ++ "]"
    else "Callable[[" ++ commaSeparated (renderAll ps) ++ "], " ++ render r ++ "]"
  | generic base args => base ++ "[" ++ commaSeparated (renderAll args) ++ "]"
  | reference name => name
  | unknown => "?"

/-- The displays of several descriptors. -/
def renderAll : List Descriptor → List String
  | [] => []
  | d :: ds => render d :: renderAll ds
end

/-! ### Nesting -/

mutual
/-- The number of constructors on the longest path down. -/
def depth : Descriptor → Nat
  | primitive _ => 1
  | optional d => depth d + 1
  | union ms => depthAll ms + 1
  | list d => depth d + 1
  | dict k v => max (depth k) (depth v) + 1
  | set d => depth d + 1
  | tuple es _ => depthAll es + 1
  | literal _ => 1
  | callable ps _ r => max (depthAll ps) (depth r) + 1
  | generic _ args => depthAll args + 1
  | reference _ => 1
  | unknown => 1

/-- The greatest depth among several descriptors. -/
def depthAll : List Descriptor → Nat
  | [] => 0
  | d :: ds => max (depth d) (depthAll ds)
end

end Descriptor

/-- What is known about an annotation: its descriptor and its side channels. -/
structure TypeInfo where
  descriptor : Descriptor
  /-- The name under which the type was written, when the descriptor does not show it. -/
  aliasName : Option String
  /-- Qualifiers and the extra arguments of annotated types. -/
  metadata : List String
deriving DecidableEq, Inhabited, Repr

namespace TypeInfo

/-- A descriptor without side channels. -/
def of (d : Descriptor) : TypeInfo := ⟨d, none, []⟩

/-- Nothing is known. -/
def unknown : TypeInfo := of .unknown

/-- Note an alias unless there is one. -/
def withAlias (t : TypeInfo) (name : String) : TypeInfo :=
  if t.aliasName.isNone then { t with aliasName := some name } else t

end TypeInfo

end ApiSurface
