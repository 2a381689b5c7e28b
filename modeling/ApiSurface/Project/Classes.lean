import ApiSurface.Facts.File
import ApiSurface.Project.Module
import ApiSurface.Project.Groups
import ApiSurface.Schema.Field

/-!
# Classes across files

Which classes of a project are data shapes or enumerations, directly or through their bases, and
which fields they have. Bases are found by name, module and place; recognition follows them until
nothing changes, and fields are inherited from the bases first to last.
-/

namespace ApiSurface.Project

/-- A class with its file. -/
structure ClassEntry where
  file : String
  module : Option String
  decl : ClassDecl
deriving Inhabited

/-- The classes of all files in order. -/
def classEntries (files : List FileFacts) : List ClassEntry :=
  files.flatMap fun f => f.classes.map fun d => ⟨f.path, f.module, d⟩

/-- The indices of the elements that satisfy `p`, in order. -/
def indices {α : Type} (p : α → Bool) (l : List α) : List Nat :=
  (List.range l.length).filter fun i => l[i]?.any p

/-! ### Finding bases -/

/-- The last candidate in a module that stands for the wanted one. -/
def candidateInModule? (classes : List ClassEntry) (candidates : List Nat) (wanted : String) :
    Option Nat :=
  candidates.reverse.find? fun i =>
    (classes[i]?.bind (·.module)).any fun m => Module.isMatch m wanted

/-- The last candidate that the same file declares before the class. -/
def candidateBefore? (classes : List ClassEntry) (candidates : List Nat) (here : ClassEntry) :
    Option Nat :=
  candidates.reverse.find? fun i =>
    classes[i]?.any fun c =>
      c.file == here.file && c.decl.span.startByte < here.decl.span.startByte

/-- The class that a base of class `i` denotes. An imported base is looked for in its module, any
other base in the same file; where that finds none, the only class of the name is taken. -/
def findBase? (classes : List ClassEntry) (i : Nat) (base : BaseRef) : Option Nat := do
  let here ← classes[i]?
  let candidates := (indices (fun c => c.decl.name == base.symbol) classes).filter (· != i)
  let picked := match base.module with
    | some module =>
      ((Module.absolute? here.module module).bind (candidateInModule? classes candidates)) <|>
        candidateInModule? classes candidates (Module.undotted module)
    | none => candidateBefore? classes candidates here
  picked <|> match candidates with
    | [only] => some only
    | _ => none

/-- Classes with the resolved bases of each. -/
structure Hierarchy where
  classes : List ClassEntry
  bases : List (List Nat)
  /-- Every class has its list of bases. -/
  length_bases : bases.length = classes.length

namespace Hierarchy

/-- The hierarchy of the classes of all files. -/
def ofFiles (files : List FileFacts) : Hierarchy where
  classes := classEntries files
  bases := (classEntries files).mapIdx fun i c =>
    c.decl.bases.filterMap (findBase? (classEntries files) i)
  length_bases := List.length_mapIdx

/-- The number of classes. -/
def size (h : Hierarchy) : Nat := h.classes.length

/-- The resolved bases of a class, in the order in which they are written. -/
def basesOf (h : Hierarchy) (i : Nat) : List Nat := h.bases[i]?.getD []

/-! ### Recognition -/

/-- What is known about each class: its kind, and whether it is an enumeration. -/
structure Marks where
  kinds : List (Option SchemaKind)
  enums : List Bool
deriving DecidableEq, Inhabited, Repr

namespace Marks

/-- The kind of a class. -/
def kind? (m : Marks) (i : Nat) : Option SchemaKind := m.kinds[i]?.getD none

/-- Whether a class is an enumeration. -/
def isEnum (m : Marks) (i : Nat) : Bool := m.enums[i]?.getD false

end Marks

/-- What the classes show by themselves. -/
def directMarks (h : Hierarchy) : Marks :=
  ⟨h.classes.map (·.decl.directKind), h.classes.map (·.decl.isEnum)⟩

/-- Mark one class by its bases. A kind that is known stays. -/
def markOne (h : Hierarchy) (m : Marks) (i : Nat) : Marks :=
  { kinds := m.kinds.set i (m.kind? i <|> (h.basesOf i).findSome? m.kind?)
    enums := m.enums.set i (m.isEnum i || (h.basesOf i).any m.isEnum) }

/-- Mark all classes by their bases, first to last. -/
def sweep (h : Hierarchy) (m : Marks) : Marks := (List.range h.size).foldl h.markOne m

/-- Sweep until nothing changes, at most `fuel` times. -/
def settle (h : Hierarchy) : Nat → Marks → Marks
  | 0, m => m
  | fuel + 1, m =>
    let next := h.sweep m
    if next = m then m else h.settle fuel next

/-- What is known about each class. Each sweep but the last marks a class that was not marked, so
there are at most two sweeps for each class and one more. -/
def marks (h : Hierarchy) : Marks := h.settle (2 * h.size + 1) h.directMarks

/-! ### Fields -/

/-- A field as a subclass inherits it from class `i`. -/
def inherit (h : Hierarchy) (i : Nat) (f : SchemaField) : SchemaField :=
  { f with inheritedFrom := f.inheritedFrom <|> h.classes[i]?.map (·.decl.name) }

/-- Add a field unless there is one of its name. -/
def addInherited (fields : List SchemaField) (f : SchemaField) : List SchemaField :=
  if fields.any fun g => g.name == f.name then fields else fields ++ [f]

/-- The bases of a class that are data shapes. -/
def recognisedBases (h : Hierarchy) (m : Marks) (i : Nat) : List Nat :=
  (h.basesOf i).filter fun b => (m.kind? b).isSome

/-- The fields of class `i`: those of its recognised bases, first to last, and then its own, which
take the place of fields of the same name. -/
def combine (h : Hierarchy) (m : Marks) (fieldsOf : Nat → Option (List SchemaField)) (i : Nat) :
    List SchemaField :=
  let inherited := (h.recognisedBases m i).foldl (fun fields b =>
    match fieldsOf b with
    | some l => (l.map (h.inherit b)).foldl addInherited fields
    | none => fields) []
  match h.classes[i]? with
  | some c => c.decl.fields.foldl (fun fields f => f.put fields) inherited
  | none => inherited

/-- How far the walk over the classes is with one of them. -/
inductive Stage where
  | fresh
  /-- Entered, but not left. -/
  | opened
  | done
deriving DecidableEq, Repr

/-- What the stack of the walk holds: a class to enter, or an entered class to leave once the tasks
above it are done. -/
inductive Task where
  | enter (i : Nat)
  | leave (i : Nat)
deriving DecidableEq, Repr

/-- How far the walk has come: the stage of each class, and the fields of those that were left. -/
structure Progress where
  stages : List Stage
  fields : List (Option (List SchemaField))

namespace Progress

/-- No class was entered. -/
def start (size : Nat) : Progress := ⟨List.replicate size .fresh, List.replicate size none⟩

/-- Whether a class was not entered yet. -/
def isFresh (p : Progress) (i : Nat) : Bool := p.stages[i]? == some .fresh

/-- The fields of a class that was left. -/
def fields? (p : Progress) (i : Nat) : Option (List SchemaField) := p.fields[i]?.join

/-- Enter a class. -/
def enter (p : Progress) (i : Nat) : Progress := { p with stages := p.stages.set i .opened }

/-- Leave a class with its fields. -/
def leave (p : Progress) (i : Nat) (l : List SchemaField) : Progress :=
  ⟨p.stages.set i .done, p.fields.set i (some l)⟩

/-- The number of classes that were not entered. -/
def freshCount (p : Progress) : Nat := p.stages.count .fresh

theorem freshCount_enter_lt {p : Progress} {i : Nat} (h : p.isFresh i) :
    (p.enter i).freshCount < p.freshCount := by
  obtain ⟨hi, hp⟩ := List.getElem?_eq_some_iff.mp (beq_iff_eq.mp h)
  have hpos : 0 < p.stages.count .fresh := List.count_pos_iff.mpr (hp ▸ List.getElem_mem hi)
  have hcount : (p.stages.set i .opened).count .fresh = p.stages.count .fresh - 1 := by
    simp [List.count_set hi, hp]
  simp only [freshCount, enter, hcount]
  omega

theorem freshCount_leave_le (p : Progress) (i : Nat) (l : List SchemaField) :
    (p.leave i l).freshCount ≤ p.freshCount := by
  simp only [freshCount, leave]
  by_cases hi : i < p.stages.length
  · simp [List.count_set hi]
  · exact Nat.le_of_eq (congrArg _ (List.set_eq_of_length_le (Nat.le_of_not_lt hi)))

end Progress

/-- Work off a stack of tasks. Entering a class for the first time puts its recognised bases above
the task of leaving it; a base that is entered but not left lies on a cycle and contributes
nothing. -/
def drain (h : Hierarchy) (m : Marks) (p : Progress) : List Task → Progress
  | [] => p
  | .leave i :: rest => h.drain m (p.leave i (h.combine m p.fields? i)) rest
  | .enter i :: rest =>
    if p.isFresh i then
      let entered := p.enter i
      let pending := (h.recognisedBases m i).filter entered.isFresh
      h.drain m entered (pending.map .enter ++ .leave i :: rest)
    else h.drain m p rest
termination_by tasks => (p.freshCount, tasks.length)
decreasing_by
  · exact Prod.Lex.right' _ (p.freshCount_leave_le i _) (by simp)
  · exact Prod.Lex.left _ _ (Progress.freshCount_enter_lt ‹_›)
  · exact Prod.Lex.right _ (by simp)

/-- The recognised classes. -/
def recognised (h : Hierarchy) (m : Marks) : List Nat :=
  (List.range h.size).filter fun i => (m.kind? i).isSome

/-- The fields of all recognised classes. -/
def allFields (h : Hierarchy) (m : Marks) : Progress :=
  (h.recognised m).foldl (fun p i => h.drain m p [.enter i]) (.start h.size)

/-! ### Schemas -/

/-- The enumeration that a field type names, looked up like a base of the class. -/
def enumOf? (h : Hierarchy) (m : Marks) (i : Nat) (name : String) : Option ClassEntry := do
  let here ← h.classes[i]?
  let symbol := Text.afterLastString '.' name
  let base : BaseRef := ⟨name, symbol, none, none⟩
  let inFile := (indices (fun c => c.decl.name == symbol && c.file == here.file) h.classes).head?
  let target ← findBase? h.classes i base <|> inFile
  if m.isEnum target then h.classes[target]? else none

/-- A field of class `i` with the values of the enumeration that its type names. -/
def withEnumValues (h : Hierarchy) (m : Marks) (i : Nat) (f : SchemaField) : SchemaField :=
  if f.constraints.enumValues.isEmpty then
    match f.type.descriptor.referencedName?.bind (h.enumOf? m i) with
    | some c => { f with constraints := { f.constraints with enumValues := c.decl.enumValues } }
    | none => f
  else f

/-- The schema of class `i`, when it is a data shape. -/
def schema? (h : Hierarchy) (m : Marks) (p : Progress) (i : Nat) (c : ClassEntry) :
    Option Schema := do
  let kind ← m.kind? i
  let fields ← p.fields? i
  pure
    { file := c.file
      span := c.decl.span
      name := c.decl.name
      kind
      bases := c.decl.bases.map (·.written)
      typeParams := c.decl.typeParams
      fields := fields.map (h.withEnumValues m i)
      config := c.decl.config
      validators := c.decl.validators
      doc := c.decl.doc
      degradations :=
        Degradations.addIf (fields.any fun f => f.type.descriptor.isUnknown) .unknownType [] }

/-- The schemas in the order of their places. -/
def schemas (h : Hierarchy) : List Schema :=
  let m := h.marks
  let p := h.allFields m
  ((h.classes.mapIdx (h.schema? m p)).filterMap id).mergeSort fun a b =>
    locationLE a.location b.location

end Hierarchy

end ApiSurface.Project
