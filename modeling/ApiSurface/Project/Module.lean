import ApiSurface.Text.Split

/-!
# Module names

Modules are named by identifiers with dots between them. An import may name a module relative to
the importing one, by dots in front.
-/

namespace ApiSurface.Module

/-- Whether a module name stands for the wanted one: both are the same, or the name has further
packages in front. -/
def matchesChars (candidate wanted : List Char) : Bool :=
  !wanted.isEmpty && (candidate == wanted || ('.' :: wanted).isSuffixOf candidate)

/-- Whether a module name stands for the wanted one. -/
def isMatch (candidate wanted : String) : Bool := matchesChars candidate.toList wanted.toList

/-- The number of dots in front of a module name. -/
def level (module : List Char) : Nat := (module.takeWhile (· == '.')).length

/-- The module name that is left behind the dots in front. -/
def withoutDots (module : List Char) : List Char := module.dropWhile (· == '.')

/-- The module that an import names, as seen from the importing module. One dot takes the last
segment off the importing module, and each further dot another one. -/
def absolute? (importer : Option String) (module : String) : Option String :=
  let chars := module.toList
  let dots := level chars
  if dots = 0 then some module
  else do
    let package := Text.splitOn '.' (← importer).toList
    if package.length < dots then none
    else
      let kept := package.take (package.length - dots)
      let rest := withoutDots chars
      pure (String.ofList (Text.join ['.'] (if rest.isEmpty then kept else kept ++ [rest])))

/-- The module that an import names when dots in front are taken for nothing. -/
def undotted (module : String) : String := String.ofList (withoutDots module.toList)

end ApiSurface.Module
