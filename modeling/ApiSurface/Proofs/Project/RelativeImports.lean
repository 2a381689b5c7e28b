import Mathlib.Data.List.Basic
import ApiSurface.Proofs.Binding.ImportPath
import ApiSurface.Proofs.Files.Paths
import ApiSurface.Session

/-!
# Relative imports between files

A file below the scan root is a module, or it stands for the package that its directory is. A
relative import goes up from the package it is written in: one dot names that package, and each
further dot the package around it (`RelativeImport.meantFrom`).

The two functions that follow such an import do not agree on where it starts. The name of a module
has one segment more than its directories, which the first dot takes away. The name of a package
has no segment for `__init__`, and the first dot takes away the last directory. So imports are
followed as they are meant in modules, and in packages they end one directory too far up
(`absolute?_moduleName?`).
-/

namespace ApiSurface

/-- Text like that of an identifier on a path: not empty, and without dots and separators. -/
structure IsSegment (s : String) : Prop where
  ne_empty : s.toList ≠ []
  noDot : '.' ∉ s.toList
  noSlash : '/' ∉ s.toList

instance (s : String) : Decidable (IsSegment s) :=
  decidable_of_iff (s.toList ≠ [] ∧ '.' ∉ s.toList ∧ '/' ∉ s.toList)
    ⟨fun ⟨h₁, h₂, h₃⟩ => ⟨h₁, h₂, h₃⟩, fun h => ⟨h.ne_empty, h.noDot, h.noSlash⟩⟩

/-- A file in a directory below the scan root. -/
structure ModuleFile where
  dirs : List String
  stem : String
  extension : String
  dirs_ne_nil : dirs ≠ []
  isSegment_dirs : ∀ d ∈ dirs, IsSegment d
  isSegment_stem : IsSegment stem
  isSegment_extension : IsSegment extension

/-- An import with dots in front of its module. -/
structure RelativeImport where
  dots : Nat
  rest : List String
  dots_pos : 0 < dots
  isSegment_rest : ∀ s ∈ rest, IsSegment s

/-! ### Names on a path -/

theorem IsSegment.isName {s : String} (h : IsSegment s) : Path.IsName s := by
  obtain ⟨c, w, hs⟩ := List.exists_cons_of_ne_nil h.ne_empty
  have hc : c ∈ s.toList := hs ▸ List.mem_cons_self
  exact Path.isName_of_notDots h.noSlash ⟨c, hc, fun heq => h.noDot (heq ▸ hc)⟩

/-- Segments leave nothing when they are joined only where there are none. -/
theorem join_eq_nil_iff {l : List String} (h : ∀ s ∈ l, IsSegment s) :
    Text.join ['.'] (l.map String.toList) = [] ↔ l = [] := by
  cases l with
  | nil => simp [Text.join]
  | cons s r =>
    have hs := (h s List.mem_cons_self).ne_empty
    cases r <;> simp [Text.join, hs]

/-- Segments are told by the name that they make up. -/
theorem eq_of_intercalate_eq {a b : List String} (ha : ∀ s ∈ a, IsSegment s)
    (hb : ∀ s ∈ b, IsSegment s) (h : ".".intercalate a = ".".intercalate b) : a = b := by
  have hnil : a = [] ↔ b = [] := by
    rw [← join_eq_nil_iff ha, ← join_eq_nil_iff hb]
    have hjoin := congrArg String.toList h
    rw [Text.toList_intercalate, Text.toList_intercalate] at hjoin
    exact hjoin ▸ Iff.rfl
  by_cases hane : a = []
  · rw [hane, hnil.mp hane]
  · have hsplit := congrArg (fun n : String => Text.splitString '.' n) h
    have ha' := Text.splitString_intercalate hane fun s hs => (ha s hs).noDot
    have hb' := Text.splitString_intercalate (mt hnil.mpr hane) fun s hs => (hb s hs).noDot
    exact ha'.symm.trans (hsplit.trans hb')

namespace ModuleFile

variable (f : ModuleFile)

/-- The last name on the path of a file. -/
def fileName : String := f.stem ++ "." ++ f.extension

/-- The path of a file from the scan root. -/
def path : String := "/".intercalate (f.dirs ++ [f.fileName])

/-- Whether the file stands for the package that its directory is. -/
def IsPackage : Prop := f.stem = "__init__"

instance : Decidable f.IsPackage := inferInstanceAs (Decidable (_ = _))

/-- The segments of the name of a file. -/
def segments : List String := if f.IsPackage then f.dirs else f.dirs ++ [f.stem]

theorem segments_ne_nil : f.segments ≠ [] := by
  rw [segments]
  split
  · exact f.dirs_ne_nil
  · exact List.append_ne_nil_of_left_ne_nil f.dirs_ne_nil _

theorem isSegment_segments {s : String} (hs : s ∈ f.segments) : IsSegment s := by
  rw [segments] at hs
  split at hs
  · exact f.isSegment_dirs s hs
  · obtain hs | hs := List.mem_append.mp hs
    · exact f.isSegment_dirs s hs
    · exact List.mem_singleton.mp hs ▸ f.isSegment_stem

theorem isName_fileName : Path.IsName f.fileName := by
  obtain ⟨c, w, hc⟩ := List.exists_cons_of_ne_nil f.isSegment_stem.ne_empty
  have hmem : c ∈ f.stem.toList := hc ▸ List.mem_cons_self
  refine Path.isName_of_notDots ?_ ⟨c, ?_, fun heq => f.isSegment_stem.noDot (heq ▸ hmem)⟩
  · simp [fileName, f.isSegment_stem.noSlash, f.isSegment_extension.noSlash]
  · simp [fileName, hmem]

theorem names_path : Path.names f.path = f.dirs ++ [f.fileName] := by
  refine Path.names_intercalate (by simp) fun s hs => ?_
  obtain hs | hs := List.mem_append.mp hs
  · exact (f.isSegment_dirs s hs).isName
  · exact List.mem_singleton.mp hs ▸ f.isName_fileName

/-- The name of a file has its segments with dots between them. -/
theorem moduleName?_path : moduleName? f.path = some (".".intercalate f.segments) := by
  have hstem : (Path.splitName f.fileName).1 = f.stem := by
    rw [fileName, Path.splitName_append f.isSegment_stem.ne_empty f.isSegment_extension.noDot]
  have hsegments : (if f.stem = "__init__" then f.dirs else f.dirs ++ [f.stem]) = f.segments := rfl
  rw [moduleName?, names_path, List.reverse_append, List.reverse_singleton, List.singleton_append]
  simp only [hstem, List.reverse_reverse, hsegments, List.isEmpty_iff, f.segments_ne_nil, if_false]

end ModuleFile

/-! ### What an import names -/

namespace RelativeImport

variable (i : RelativeImport) (f : ModuleFile)

/-- The module as the import writes it. -/
def text : String := Module.written i.dots i.rest

/-- The module that an import is meant to name in a file: what follows the dots, below the
directory of the file without as many directories as there are further dots. -/
def meantFrom : String := ".".intercalate (f.dirs.take (f.dirs.length - (i.dots - 1)) ++ i.rest)

/-- What follows the dots begins with no further one. -/
theorem head?_rest_ne_dot : (Text.join ['.'] (i.rest.map String.toList)).head? ≠ some '.' := by
  have hsegments := i.isSegment_rest
  cases hrest : i.rest with
  | nil => simp [Text.join]
  | cons s r =>
    have hs : IsSegment s := hsegments s (hrest ▸ List.mem_cons_self)
    obtain ⟨c, w, hc⟩ := List.exists_cons_of_ne_nil hs.ne_empty
    have hdot : c ≠ '.' := fun heq => hs.noDot (hc ▸ heq ▸ List.mem_cons_self)
    cases r <;> simp [Text.join, hc, hdot]

theorem level_text : Module.level i.text.toList = i.dots := by
  rw [text, Module.written, String.toList_ofList, Module.level,
    List.takeWhile_append_of_pos (by simp)]
  cases hrest : Text.join ['.'] (i.rest.map String.toList) with
  | nil => simp
  | cons c w =>
    have hdot : c ≠ '.' := fun heq => i.head?_rest_ne_dot (by rw [hrest, heq, List.head?_cons])
    simp [hdot]

theorem withoutDots_text :
    Module.withoutDots i.text.toList = Text.join ['.'] (i.rest.map String.toList) := by
  rw [text, Module.written, String.toList_ofList, Module.withoutDots,
    List.dropWhile_append_of_pos (by simp)]
  cases hrest : Text.join ['.'] (i.rest.map String.toList) with
  | nil => rfl
  | cons c w =>
    have hdot : c ≠ '.' := fun heq => i.head?_rest_ne_dot (by rw [hrest, heq, List.head?_cons])
    simp [hdot]

/-- Each dot takes the last segment off the importing module. -/
theorem absolute?_text {segments : List String} (hne : segments ≠ [])
    (h : ∀ s ∈ segments, IsSegment s) :
    Module.absolute? (some (".".intercalate segments)) i.text
      = if segments.length < i.dots then none
        else some (".".intercalate (segments.take (segments.length - i.dots) ++ i.rest)) := by
  have hsplit : Text.splitOn '.' (".".intercalate segments).toList = segments.map String.toList :=
    Text.splitOn_intercalate hne fun s hs => (h s hs).noDot
  have hpos : i.dots ≠ 0 := Nat.pos_iff_ne_zero.mp i.dots_pos
  simp only [Module.absolute?, level_text, withoutDots_text, if_neg hpos, Option.bind_eq_bind,
    Option.bind_some, hsplit, List.length_map]
  split
  · rfl
  · have hjoin : Text.join ['.'] (if i.rest = []
        then (segments.take (segments.length - i.dots)).map String.toList
        else (segments.take (segments.length - i.dots)).map String.toList
          ++ [Text.join ['.'] (i.rest.map String.toList)])
        = (".".intercalate (segments.take (segments.length - i.dots) ++ i.rest)).toList := by
      rw [Text.toList_intercalate, List.map_append]
      split
      · next hnil => simp [hnil]
      · next hrest => exact Text.join_append_singleton_join _ _ (mt List.map_eq_nil_iff.mp hrest)
    simp only [List.isEmpty_iff, join_eq_nil_iff i.isSegment_rest, ← List.map_take, hjoin,
      String.ofList_toList]
    rfl

/-- Whatever number of directories is kept, segments follow one another. -/
theorem isSegment_take_append (n : Nat) {s : String} (hs : s ∈ f.dirs.take n ++ i.rest) :
    IsSegment s := by
  obtain hs | hs := List.mem_append.mp hs
  · exact f.isSegment_dirs s (List.mem_of_mem_take hs)
  · exact i.isSegment_rest s hs

variable {i f}

theorem absolute?_of_not_isPackage (hf : ¬ f.IsPackage) (h : i.dots ≤ f.dirs.length + 1) :
    Module.absolute? (moduleName? f.path) i.text = some (i.meantFrom f) := by
  have hlength : f.segments.length = f.dirs.length + 1 := by
    rw [ModuleFile.segments, if_neg hf, List.length_append, List.length_singleton]
  -- the stem goes with the first dot
  have hkept : f.segments.take (f.segments.length - i.dots)
      = f.dirs.take (f.dirs.length - (i.dots - 1)) := by
    have hpos := i.dots_pos
    have hcount : f.dirs.length + 1 - i.dots = f.dirs.length - (i.dots - 1) := by omega
    rw [hlength, hcount, ModuleFile.segments, if_neg hf,
      List.take_append_of_le_length (Nat.sub_le _ _)]
  rw [f.moduleName?_path, i.absolute?_text f.segments_ne_nil fun s => f.isSegment_segments,
    if_neg (by omega), hkept, meantFrom]

theorem absolute?_of_isPackage (hf : f.IsPackage) :
    Module.absolute? (moduleName? f.path) i.text
      = if i.dots ≤ f.dirs.length then
          some (".".intercalate (f.dirs.take (f.dirs.length - i.dots) ++ i.rest))
        else none := by
  have hsegments : f.segments = f.dirs := if_pos hf
  rw [f.moduleName?_path, i.absolute?_text f.segments_ne_nil fun s => f.isSegment_segments,
    hsegments]
  by_cases hdots : i.dots ≤ f.dirs.length
  · rw [if_neg (Nat.not_lt.mpr hdots), if_pos hdots]
  · rw [if_pos (Nat.not_le.mp hdots), if_neg hdots]

/-- In a package the directory where an import ends is never the one that is meant: it is the one
around it. -/
theorem absolute?_ne_meantFrom_of_isPackage (hf : f.IsPackage) :
    Module.absolute? (moduleName? f.path) i.text ≠ some (i.meantFrom f) := by
  rw [absolute?_of_isPackage hf]
  split
  · next hdots =>
    intro heq
    have hlist := eq_of_intercalate_eq (fun _ => i.isSegment_take_append f _)
      (fun _ => i.isSegment_take_append f _) (Option.some.inj heq)
    have hlength := congrArg List.length hlist
    have hpos := i.dots_pos
    simp only [List.length_append, List.length_take] at hlength
    omega
  · exact Option.some_ne_none _ ∘ Eq.symm

/-- **Relative imports**: the module that an import names in a file, as far up as the scan root. In
a module it is the one that is meant. In a package each import ends one directory above the one
that is meant, so none of them is followed to it. -/
theorem absolute?_moduleName? (f : ModuleFile) (i : RelativeImport)
    (h : i.dots ≤ f.dirs.length + 1) :
    (¬ f.IsPackage → Module.absolute? (moduleName? f.path) i.text = some (i.meantFrom f)) ∧
    (f.IsPackage → Module.absolute? (moduleName? f.path) i.text
      = if i.dots ≤ f.dirs.length then
          some (".".intercalate (f.dirs.take (f.dirs.length - i.dots) ++ i.rest))
        else none) ∧
    (Module.absolute? (moduleName? f.path) i.text = some (i.meantFrom f) ↔ ¬ f.IsPackage) :=
  ⟨fun hf => absolute?_of_not_isPackage hf h, absolute?_of_isPackage,
    fun heq hf => absolute?_ne_meantFrom_of_isPackage hf heq,
    fun hf => absolute?_of_not_isPackage hf h⟩

/-- The file `app/api/main.py`. -/
def mainFile : ModuleFile where
  dirs := ["app", "api"]
  stem := "main"
  extension := "py"
  dirs_ne_nil := by decide
  isSegment_dirs := by decide
  isSegment_stem := by decide
  isSegment_extension := by decide

/-- The file `app/api/__init__.py`. -/
def packageFile : ModuleFile where
  dirs := ["app", "api"]
  stem := "__init__"
  extension := "py"
  dirs_ne_nil := by decide
  isSegment_dirs := by decide
  isSegment_stem := by decide
  isSegment_extension := by decide

/-- The import from `..routers.items`. -/
def itemsImport : RelativeImport where
  dots := 2
  rest := ["routers", "items"]
  dots_pos := by decide
  isSegment_rest := by decide

/-- The import from `.routers`. -/
def routersImport : RelativeImport where
  dots := 1
  rest := ["routers"]
  dots_pos := by decide
  isSegment_rest := by decide

theorem absolute?_moduleName?_main :
    itemsImport.dots ≤ mainFile.dirs.length + 1 ∧ ¬ mainFile.IsPackage ∧
    itemsImport.meantFrom mainFile = "app.routers.items" ∧
    Module.absolute? (moduleName? mainFile.path) itemsImport.text = some "app.routers.items" := by
  have hdots : itemsImport.dots ≤ mainFile.dirs.length + 1 := by decide
  have hmodule : ¬ mainFile.IsPackage := by decide
  have hmeant : itemsImport.meantFrom mainFile = "app.routers.items" := by decide +kernel
  exact ⟨hdots, hmodule, hmeant,
    hmeant ▸ (absolute?_moduleName? mainFile itemsImport hdots).1 hmodule⟩

/-- In `app/api/__init__.py` the import from `.routers` is meant to name `app.api.routers`, and it
names `app.routers`. -/
theorem absolute?_moduleName?_package :
    packageFile.path = "app/api/__init__.py" ∧ routersImport.text = ".routers" ∧
    routersImport.meantFrom packageFile = "app.api.routers" ∧
    Module.absolute? (moduleName? packageFile.path) routersImport.text = some "app.routers" := by
  decide +kernel

end RelativeImport

end ApiSurface
