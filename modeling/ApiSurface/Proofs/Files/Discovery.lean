import Mathlib.Data.List.Nodup
import ApiSurface.Files.Discovery
import ApiSurface.Proofs.Files.Paths
import ApiSurface.Proofs.KeyedList
import ApiSurface.Proofs.Project.Sorting

/-!
# Which source files are found

The search goes down a directory and never enters some of the directories below it. What it finds is
told file by file: each directory on the way to the file must be entered, and the name of the file
and its path from where the search starts must be such that the file is taken
(`Directory.Has`). The search finds these files and no others (`collectFrom_finds`).
-/

namespace ApiSurface.Files

/-! ### Directories -/

mutual
/-- Whether in every directory the names are names and none of them stands there twice. -/
def IsProper : Entry → Prop
  | .file _ => True
  | .dir entries => (entries.map Prod.fst).Nodup ∧ AreProper entries

/-- Whether this holds of the entries of a directory and below them. -/
def AreProper : List (String × Entry) → Prop
  | [] => True
  | (name, e) :: rest => Path.IsName name ∧ IsProper e ∧ AreProper rest
end

/-- A directory with all that lies in it. -/
structure Directory where
  entries : List (String × Entry)
  isProper : IsProper (.dir entries)

/-- Whether a file lies at the place below an entry. -/
def Entry.HasFile (e : Entry) (place : List String) : Prop :=
  ∃ content, e.at? place = some (.file content)

/-- Whether a name has an extension of source files behind something else. -/
def IsSource (name : String) : Prop :=
  ∃ stem, stem ≠ "" ∧ (name = stem ++ ".py" ∨ name = stem ++ ".pyi")

/-- Whether a directory has a file that is to be found, in a directory that the names lead to from
there. -/
structure Directory.Has (d : Directory) (f : Filter) (dirs : List String) (name : String) :
    Prop where
  file : (Entry.dir d.entries).HasFile (dirs ++ [name])
  source : IsSource name
  entered : ∀ dir ∈ dirs, isHidden dir = false ∧ dir ∉ skippedDirs ∧
    (f.includesTests ∨ dir ∉ testDirs)
  untested : f.includesTests ∨ isTestFile name = false
  kept : f.excluded ("/".intercalate (dirs ++ [name])) = false

variable {f : Filter} {e : Entry} {entries : List (String × Entry)} {pre place l : List String}
  {name : String}

theorem Filter.enters_iff : f.enters name ↔ isHidden name = false ∧ name ∉ skippedDirs ∧
    (f.includesTests ∨ name ∉ testDirs) := by
  simp [enters, and_assoc]

theorem AreProper.of_mem (h : AreProper entries) (he : (name, e) ∈ entries) :
    Path.IsName name ∧ IsProper e := by
  induction entries with
  | nil => exact absurd he List.not_mem_nil
  | cons p rest ih =>
    obtain ⟨hname, hfirst, hrest⟩ := h
    obtain rfl | he := List.mem_cons.mp he
    · exact ⟨hname, hfirst⟩
    · exact ih hrest he

theorem find?_eq_some_iff (h : (entries.map Prod.fst).Nodup) :
    Entry.find? name entries = some e ↔ (name, e) ∈ entries := by
  rw [Entry.find?, Option.map_eq_some_iff]
  constructor
  · rintro ⟨⟨name', e'⟩, hfind, rfl⟩
    obtain rfl : name' = name := by simpa using List.find?_some hfind
    exact List.mem_of_find?_eq_some hfind
  · exact fun he => ⟨_, KeyedList.find?_fst_eq_some h he, rfl⟩

/-! ### Places of files -/

theorem hasFile_file_iff {content : ByteArray} :
    (Entry.file content).HasFile place ↔ place = [] := by
  cases place <;> simp [Entry.HasFile, Entry.at?]

theorem not_hasFile_dir_nil : ¬ (Entry.dir entries).HasFile [] := by
  simp [Entry.HasFile, Entry.at?]

theorem hasFile_dir_cons_iff (h : (entries.map Prod.fst).Nodup) :
    (Entry.dir entries).HasFile (name :: place) ↔ ∃ e, (name, e) ∈ entries ∧ e.HasFile place := by
  simp only [Entry.HasFile, Entry.at?, Option.bind_eq_some_iff, find?_eq_some_iff h]
  exact ⟨fun ⟨c, e, he, hc⟩ => ⟨e, he, c, hc⟩, fun ⟨e, he, c, hc⟩ => ⟨c, e, he, hc⟩⟩

/-- The way to a file goes through an entry, and through the directory that it may be. -/
theorem forall_enters_cons_iff (h : e.HasFile place) :
    (∀ dir ∈ (name :: place).dropLast, f.enters dir) ↔
      (e.isDir && !f.enters name) = false ∧ ∀ dir ∈ place.dropLast, f.enters dir := by
  cases e with
  | file content =>
    rw [hasFile_file_iff.mp h]
    simp [Entry.isDir]
  | dir entries =>
    have hne : place ≠ [] := fun hnil => not_hasFile_dir_nil (hnil ▸ h)
    rw [List.dropLast_cons_of_ne_nil hne, List.forall_mem_cons]
    simp [Entry.isDir]

mutual
/-- The places that are found below an entry are those of files on whose way every directory is
entered. -/
theorem mem_placesBelow_iff (f : Filter) (pre l : List String) {e : Entry} (h : IsProper e) :
    l ∈ placesBelow f pre e ↔
      ∃ place, l = pre ++ place ∧ e.HasFile place ∧ ∀ dir ∈ place.dropLast, f.enters dir := by
  cases e with
  | file content =>
    rw [placesBelow, List.mem_singleton]
    simp [hasFile_file_iff]
  | dir entries =>
    rw [placesBelow, mem_placesBelowAll_iff f pre l h.2]
    constructor
    · rintro ⟨name, e, place, he, rfl, hfile, henters⟩
      exact ⟨name :: place, rfl, (hasFile_dir_cons_iff h.1).mpr ⟨e, he, hfile⟩, henters⟩
    · rintro ⟨_ | ⟨name, place⟩, rfl, hfile, henters⟩
      · exact absurd hfile not_hasFile_dir_nil
      · obtain ⟨e, he, hfile⟩ := (hasFile_dir_cons_iff h.1).mp hfile
        exact ⟨name, e, place, he, rfl, hfile, henters⟩

theorem mem_placesBelowAll_iff (f : Filter) (pre l : List String) {entries : List (String × Entry)}
    (h : AreProper entries) :
    l ∈ placesBelowAll f pre entries ↔ ∃ name e place, (name, e) ∈ entries ∧
      l = pre ++ name :: place ∧ e.HasFile place ∧
        ∀ dir ∈ (name :: place).dropLast, f.enters dir := by
  cases entries with
  | nil => simp [placesBelowAll]
  | cons p rest =>
    obtain ⟨name, e⟩ := p
    obtain ⟨-, he, hrest⟩ := h
    have hfirst : l ∈ (if e.isDir && !f.enters name then [] else placesBelow f (pre ++ [name]) e) ↔
        ∃ place, l = pre ++ name :: place ∧ e.HasFile place ∧
          ∀ dir ∈ (name :: place).dropLast, f.enters dir := by
      have hbelow := mem_placesBelow_iff f (pre ++ [name]) l he
      simp only [List.append_assoc, List.singleton_append] at hbelow
      constructor
      · intro hl
        split at hl
        · exact absurd hl List.not_mem_nil
        · next hdir =>
          obtain ⟨place, rfl, hfile, henters⟩ := hbelow.mp hl
          exact ⟨place, rfl, hfile,
            (forall_enters_cons_iff hfile).mpr ⟨Bool.eq_false_iff.mpr hdir, henters⟩⟩
      · rintro ⟨place, rfl, hfile, henters⟩
        obtain ⟨hdir, henters⟩ := (forall_enters_cons_iff hfile).mp henters
        rw [if_neg (Bool.eq_false_iff.mp hdir)]
        exact hbelow.mpr ⟨place, rfl, hfile, henters⟩
    rw [placesBelowAll, List.mem_append, hfirst, mem_placesBelowAll_iff f pre l hrest]
    constructor
    · rintro (⟨place, h⟩ | ⟨name', e', place, he', h⟩)
      · exact ⟨name, e, place, List.mem_cons_self, h⟩
      · exact ⟨name', e', place, List.mem_cons_of_mem _ he', h⟩
    · rintro ⟨name', e', place, he', h⟩
      obtain heq | he' := List.mem_cons.mp he'
      · obtain ⟨rfl, rfl⟩ := Prod.mk.inj heq
        exact .inl ⟨place, h⟩
      · exact .inr ⟨name', e', place, he', h⟩
end

mutual
theorem nodup_placesBelow (f : Filter) (pre : List String) {e : Entry} (h : IsProper e) :
    (placesBelow f pre e).Nodup := by
  cases e with
  | file content => exact List.pairwise_singleton _ pre
  | dir entries => exact nodup_placesBelowAll f pre h.1 h.2

theorem nodup_placesBelowAll (f : Filter) (pre : List String) {entries : List (String × Entry)}
    (hnames : (entries.map Prod.fst).Nodup) (h : AreProper entries) :
    (placesBelowAll f pre entries).Nodup := by
  cases entries with
  | nil => exact List.nodup_nil
  | cons p rest =>
    obtain ⟨name, e⟩ := p
    obtain ⟨-, he, hrest⟩ := h
    obtain ⟨hname, hnames⟩ := List.nodup_cons.mp hnames
    rw [placesBelowAll, List.nodup_append]
    refine ⟨?_, nodup_placesBelowAll f pre hnames hrest, ?_⟩
    · split
      · exact List.nodup_nil
      · exact nodup_placesBelow f (pre ++ [name]) he
    · -- the places in the entry go on with its name, the others with other names
      rintro l hl l' hl' rfl
      split at hl
      · exact List.not_mem_nil hl
      · obtain ⟨place, rfl, -⟩ := (mem_placesBelow_iff f _ l he).mp hl
        obtain ⟨name', e', place', he', heq, -⟩ := (mem_placesBelowAll_iff f _ _ hrest).mp hl'
        rw [List.append_assoc, List.append_cancel_left_eq, List.singleton_append] at heq
        obtain ⟨rfl, -⟩ := List.cons.inj heq
        exact hname (List.mem_map.mpr ⟨_, he', rfl⟩)
end

/-- The way to a file is made of names. -/
theorem isName_of_hasFile (h : IsProper e) (hfile : e.HasFile place) :
    ∀ name ∈ place, Path.IsName name := by
  induction place generalizing e with
  | nil => exact fun name hname => absurd hname List.not_mem_nil
  | cons name place ih =>
    cases e with
    | file content => exact absurd (hasFile_file_iff.mp hfile) (List.cons_ne_nil name place)
    | dir entries =>
      obtain ⟨e, he, hfile⟩ := (hasFile_dir_cons_iff h.1).mp hfile
      obtain ⟨hname, he⟩ := h.2.of_mem he
      exact List.forall_mem_cons.mpr ⟨hname, ih he hfile⟩

/-! ### Paths of places -/

theorem steps_pathBelow (root : String) (h : ∀ name ∈ place, Path.IsName name) :
    Path.steps (pathBelow root place) = Path.steps root ++ place.map .name := by
  induction place generalizing root with
  | nil => simp [pathBelow]
  | cons name place ih =>
    have hrest : pathBelow root (name :: place) = pathBelow (Path.join root name) place := rfl
    rw [hrest, ih _ fun n hn => h n (List.mem_cons_of_mem name hn),
      Path.steps_join_name root (h name List.mem_cons_self), List.append_assoc]
    rfl

/-- Names that follow a text that ends in a name stand behind separators. -/
theorem toList_pathBelow {dir last : String} {before : List Char} (hlast : Path.IsName last)
    (hdir : dir.toList = before ++ last.toList) (h : ∀ name ∈ place, Path.IsName name) :
    (pathBelow dir place).toList = dir.toList ++ place.flatMap fun name => '/' :: name.toList := by
  induction place generalizing dir last before with
  | nil => simp [pathBelow]
  | cons name place ih =>
    have hname := h name List.mem_cons_self
    have hne : dir ≠ "" := by
      rintro rfl
      exact hlast.toList_ne_nil (List.append_eq_nil_iff.mp hdir.symm).2
    have hslash : dir.toList.getLast? ≠ some '/' := by
      rw [hdir, List.getLast?_append_of_ne_nil _ hlast.toList_ne_nil]
      exact fun heq => hlast.noSlash (List.mem_of_getLast? heq)
    have hjoin : (Path.join dir name).toList = dir.toList ++ '/' :: name.toList := by
      rw [Path.join, if_neg (by simp [hname.isAbsolute_eq_false, hne]), if_neg hslash]
      simp
    have hrest : pathBelow dir (name :: place) = pathBelow (Path.join dir name) place := rfl
    have hnext : (Path.join dir name).toList = (dir.toList ++ ['/']) ++ name.toList := by
      simp [hjoin]
    rw [hrest, ih hname hnext fun n hn => h n (List.mem_cons_of_mem name hn), hjoin,
      List.append_assoc]
    rfl

/-- From where a search starts, a file is seen by the names that lead to it. -/
theorem relativeTo_pathBelow (root : String) (hne : place ≠ [])
    (h : ∀ name ∈ place, Path.IsName name) :
    Path.relativeTo root (pathBelow root place) = "/".intercalate place := by
  obtain ⟨hstart, hend⟩ := Path.trim_intercalate hne h
  obtain ⟨name, rest, rfl⟩ := List.exists_cons_of_ne_nil hne
  have hname := h name List.mem_cons_self
  have hrest : ∀ n ∈ rest, Path.IsName n := fun n hn => h n (List.mem_cons_of_mem name hn)
  have htext : ("/".intercalate (name :: rest)).toList
      = name.toList ++ rest.flatMap fun n => '/' :: n.toList := by
    rw [Text.toList_intercalate, List.map_cons, Text.join_cons_eq, List.flatMap_map]
    rfl
  have hfirst : pathBelow root (name :: rest) = pathBelow (Path.join root name) rest := rfl
  by_cases hroot : root = ""
  · have hjoin : Path.join root name = name := if_pos (.inr hroot)
    have hpath : pathBelow root (name :: rest) = "/".intercalate (name :: rest) := by
      rw [← String.toList_inj, htext, hfirst, hjoin,
        toList_pathBelow hname (List.nil_append _).symm hrest]
    rw [hpath, hroot, Path.relativeTo_empty hend]
  · obtain ⟨d, hd, hjoin⟩ := Path.toList_join hroot hname.isAbsolute_eq_false
    have hpath : (pathBelow root (name :: rest)).toList
        = d ++ '/' :: ("/".intercalate (name :: rest)).toList := by
      have hlast : (Path.join root name).toList = (d ++ ['/']) ++ name.toList := by simp [hjoin]
      rw [hfirst, toList_pathBelow hname hlast hrest, hjoin, htext, List.append_assoc]
      rfl
    exact Path.relativeTo_of_toList hd hroot hpath hstart hend

/-! ### Files that are taken -/

theorem isSource_iff :
    IsSource name ↔ handlesExtension ((Path.splitName name).2.getD "") := by
  have hhandles : ∀ extension,
      handlesExtension extension ↔ extension = "py" ∨ extension = "pyi" := by
    intro extension
    simp [handlesExtension, extensions]
  rw [hhandles]
  constructor
  · rintro ⟨stem, hstem, hname⟩
    have hsplit : ∀ extension : String, '.' ∉ extension.toList →
        Path.splitName (stem ++ ("." ++ extension)) = (stem, some extension) := by
      intro extension hextension
      rw [← String.append_assoc]
      exact Path.splitName_append (mt String.toList_eq_nil_iff.mp hstem) hextension
    have hpy : "." ++ "py" = ".py" := by decide
    have hpyi : "." ++ "pyi" = ".pyi" := by decide
    obtain rfl | rfl := hname
    · exact .inl (by rw [← hpy, hsplit "py" (by decide), Option.getD_some])
    · exact .inr (by rw [← hpyi, hsplit "pyi" (by decide), Option.getD_some])
  · intro h
    by_cases hdot : '.' ∈ name.toList
    · obtain ⟨stem, extension, -, hname, hsplit⟩ := Text.exists_splitLast_eq hdot
      cases stem with
      | nil => simp [Path.splitName, hsplit] at h
      | cons c stem =>
        simp only [Path.splitName, hsplit, Option.getD_some] at h
        refine ⟨String.ofList (c :: stem), by simp, ?_⟩
        simp only [← String.toList_inj, hname, String.toList_append, String.toList_ofList] at h ⊢
        obtain rfl | rfl := h
        · exact .inl rfl
        · exact .inr rfl
    · simp [Path.splitName, Text.splitLast_eq_none hdot] at h

theorem takes_iff {root : String} {dirs : List String}
    (h : ∀ n ∈ dirs ++ [name], Path.IsName n) :
    f.takes (pathBelow root (dirs ++ [name]))
        (Path.relativeTo root (pathBelow root (dirs ++ [name]))) ↔
      IsSource name ∧ (f.includesTests ∨ isTestFile name = false) ∧
        f.excluded ("/".intercalate (dirs ++ [name])) = false := by
  have hname : Path.fileName? (pathBelow root (dirs ++ [name])) = some name := by
    rw [Path.fileName?, steps_pathBelow root h, List.map_append, ← List.append_assoc]
    simp [Path.Step.name?]
  rw [Filter.takes, Path.extension?, hname, relativeTo_pathBelow root (by simp) h, isSource_iff]
  simp [and_assoc]

/-! ### What is found -/

theorem isSortable_le : Project.IsSortable Path.le := Project.IsSortable.of_compare Path.compare

namespace Directory

variable {d : Directory} {root : String}

/-- The paths of a search before they are sorted. -/
theorem mem_paths_iff {path : String} :
    path ∈ (placesBelow f [] (.dir d.entries)).map (pathBelow root) ↔
      ∃ place, path = pathBelow root place ∧ (Entry.dir d.entries).HasFile place ∧
        ∀ dir ∈ place.dropLast, f.enters dir := by
  simp only [List.mem_map, mem_placesBelow_iff f [] _ d.isProper, List.nil_append]
  constructor
  · rintro ⟨place, ⟨_, rfl, hplace⟩, rfl⟩
    exact ⟨place, rfl, hplace⟩
  · rintro ⟨place, rfl, hplace⟩
    exact ⟨place, ⟨place, rfl, hplace⟩, rfl⟩

/-- Different files have paths with different steps. -/
theorem nodup_steps (d : Directory) (f : Filter) (root : String) :
    (((placesBelow f [] (.dir d.entries)).map (pathBelow root)).map Path.steps).Nodup := by
  rw [List.map_map]
  refine List.Nodup.map_on ?_ (nodup_placesBelow f [] d.isProper)
  intro place hplace place' hplace' heq
  have hname : ∀ l ∈ placesBelow f [] (.dir d.entries), ∀ name ∈ l, Path.IsName name := by
    intro l hl
    obtain ⟨l, rfl, hfile, -⟩ := (mem_placesBelow_iff f [] _ d.isProper).mp hl
    exact isName_of_hasFile d.isProper hfile
  rw [Function.comp_apply, Function.comp_apply, steps_pathBelow root (hname _ hplace),
    steps_pathBelow root (hname _ hplace'), List.append_cancel_left_eq] at heq
  exact List.map_injective_iff.mpr (fun _ _ => Path.Step.name.inj) heq

theorem has_iff {dirs : List String} : d.Has f dirs name ↔
    ((Entry.dir d.entries).HasFile (dirs ++ [name]) ∧ ∀ dir ∈ dirs, f.enters dir) ∧
      f.takes (pathBelow root (dirs ++ [name]))
        (Path.relativeTo root (pathBelow root (dirs ++ [name]))) := by
  simp only [Filter.enters_iff]
  constructor
  · rintro ⟨hfile, hsource, hentered, huntested, hkept⟩
    have hnames := isName_of_hasFile d.isProper hfile
    exact ⟨⟨hfile, hentered⟩, (takes_iff hnames).mpr ⟨hsource, huntested, hkept⟩⟩
  · rintro ⟨⟨hfile, hentered⟩, htakes⟩
    have hnames := isName_of_hasFile d.isProper hfile
    obtain ⟨hsource, huntested, hkept⟩ := (takes_iff hnames).mp htakes
    exact ⟨hfile, hsource, hentered, huntested, hkept⟩

/-- What a search finds: the paths are in order, none comes twice, and they are the paths of the
files that are to be found. -/
structure Finds (d : Directory) (f : Filter) (root : String) (files : List String) : Prop where
  sorted : files.Pairwise fun p q => Path.compare p q = .lt
  nodup : files.Nodup
  mem_iff : ∀ path, path ∈ files ↔
    ∃ dirs name, d.Has f dirs name ∧ path = pathBelow root (dirs ++ [name])

end Directory

theorem sorted_collectFrom (f : Filter) (root : String) (d : Directory) :
    (collectFrom f root (.dir d.entries)).Pairwise fun p q => Path.compare p q = .lt := by
  have hsteps : ((collectFrom f root (.dir d.entries)).map Path.steps).Nodup :=
    ((List.mergeSort_perm _ _).map Path.steps).nodup_iff.mpr
      ((d.nodup_steps f root).sublist (List.filter_sublist.map Path.steps))
  have hle : (collectFrom f root (.dir d.entries)).Pairwise fun p q => Path.le p q :=
    isSortable_le.pairwise_mergeSort _
  refine (hle.and (List.pairwise_map.mp hsteps)).imp ?_
  rintro p q ⟨hpq, hne⟩
  cases hcompare : Path.compare p q with
  | lt => rfl
  | eq => exact absurd (Path.steps_eq_of_compare hcompare) hne
  | gt => simp [Path.le, hcompare] at hpq

/-- **Finding files.** A search through a directory finds, in the order of their paths and each one
once, the source files that are to be found: no directory on the way is hidden, one of tools or
builds or, unless tests are included, one of tests, the file itself is none of tests either, and its
path from where the search starts is not excluded. -/
theorem collectFrom_finds (f : Filter) (root : String) (d : Directory) :
    d.Finds f root (collectFrom f root (.dir d.entries)) where
  sorted := sorted_collectFrom f root d
  nodup := (sorted_collectFrom f root d).imp Path.ne_of_compare_lt
  mem_iff path := by
    rw [collectFrom, List.mem_mergeSort, List.mem_filter, Directory.mem_paths_iff]
    constructor
    · rintro ⟨⟨place, rfl, hfile, henters⟩, htakes⟩
      have hne : place ≠ [] := fun hnil => not_hasFile_dir_nil (hnil ▸ hfile)
      obtain ⟨dirs, name, rfl⟩ := (List.eq_nil_or_concat' place).resolve_left hne
      rw [List.dropLast_concat] at henters
      exact ⟨dirs, name, Directory.has_iff.mpr ⟨⟨hfile, henters⟩, htakes⟩, rfl⟩
    · rintro ⟨dirs, name, hhas, rfl⟩
      obtain ⟨⟨hfile, henters⟩, htakes⟩ := Directory.has_iff.mp hhas
      refine ⟨⟨_, rfl, hfile, ?_⟩, htakes⟩
      rwa [List.dropLast_concat]

end ApiSurface.Files
