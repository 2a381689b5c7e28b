import ApiSurface.Catalog.Builtin

/-!
# Extended catalogs

The built-in tables with entries of a project on top of them. Of several entries with one name
the last one added counts, and the built-in tables answer only where there is none.
-/

namespace ApiSurface

/-- Entries on top of the built-in tables, last one first. -/
structure Catalog where
  addedConstructors : List (String × Catalog.Role)
  addedHttpModules : List (String × String)
  addedModelBases : List (String × SchemaKind)
deriving DecidableEq, Repr, Inhabited

namespace Catalog

/-- The built-in tables alone. -/
def builtin : Catalog := ⟨[], [], []⟩

def addConstructor (c : Catalog) (path : String) (role : Role) : Catalog :=
  { c with addedConstructors := (path, role) :: c.addedConstructors }

def addHttpModule (c : Catalog) (module library : String) : Catalog :=
  { c with addedHttpModules := (module, library) :: c.addedHttpModules }

def addModelBase (c : Catalog) (path : String) (kind : SchemaKind) : Catalog :=
  { c with addedModelBases := (path, kind) :: c.addedModelBases }

/-- What a call of the constructor produces. -/
def constructorRole? (c : Catalog) (path : String) : Option Role :=
  find? c.addedConstructors path <|> find? constructors path

/-- The library whose requests the functions of a module make. -/
def httpModule? (c : Catalog) (module : String) : Option String :=
  find? c.addedHttpModules module <|> find? httpModules module

/-- The kind of data shape that subclasses of the base are. -/
def modelBase? (c : Catalog) (path : String) : Option SchemaKind :=
  find? c.addedModelBases path <|> find? modelBases path

end Catalog

end ApiSurface
