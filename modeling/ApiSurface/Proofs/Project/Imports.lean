import Mathlib.Order.Bounds.Basic
import ApiSurface.Project.Classes

/-!
# Where an import leads

A file stands for the module that an import names when its module name is the same, and also when it
only has further packages in front: then it is a look-alike. Neither way goes before the other.
Among the declarations of the imported name in all these files the one at the last place is taken,
where groups stand in the order of their keys and classes in the order of their files.

So a declaration in the module itself is taken exactly when for each one in a look-alike there is
one in the module at a later place. `target?_findBase?_of_absolute` says this of both searches, for
groups and for base classes.
-/

namespace ApiSurface.Module

variable {candidate wanted : String}

/-- The name of the candidate is the wanted one with further packages in front. -/
def IsLookAlike (candidate wanted : String) : Prop :=
  ('.' :: wanted.toList) <:+ candidate.toList

instance : Decidable (IsLookAlike candidate wanted) :=
  inferInstanceAs (Decidable (_ <:+ _))

theorem not_isLookAlike_self (wanted : String) : ¬ IsLookAlike wanted wanted := fun h =>
  Nat.not_succ_le_self _ h.length_le

theorem isMatch_iff (hne : wanted ≠ "") :
    isMatch candidate wanted = true ↔ candidate = wanted ∨ IsLookAlike candidate wanted := by
  have hlist : wanted.toList ≠ [] := fun h => hne (String.toList_eq_nil_iff.mp h)
  simp [isMatch, matchesChars, IsLookAlike, hlist, String.toList_inj]

end ApiSurface.Module

namespace ApiSurface.Project

open ApiSurface.Module (IsLookAlike)

variable {files : List FileFacts} {classes : List ClassEntry} {i : GroupInclude} {base : BaseRef}
  {module name wanted : String} {found : Option Nat} {places : Set Nat} {here k : Nat}

/-! ### Last places -/

/-- A search finds the last of some places, and none only if there are none. -/
structure FindsLast (found : Option Nat) (places : Set Nat) : Prop where
  last : ∀ k, found = some k → IsGreatest places k
  empty : found = none → places = ∅

theorem FindsLast.exists_isGreatest (h : FindsLast found places) (hne : places.Nonempty) :
    ∃ k, found = some k ∧ IsGreatest places k := by
  cases hk : found with
  | none => exact absurd (h.empty hk) hne.ne_empty
  | some k => exact ⟨k, rfl, h.last k hk⟩

theorem findsLast_lastIndex? {α : Type} (p : α → Bool) (l : List α) :
    FindsLast (lastIndex? p l) {k | ∃ a, l[k]? = some a ∧ p a = true} := by
  induction l with
  | nil => exact ⟨by simp [lastIndex?], by simp [lastIndex?]⟩
  | cons a l ih =>
    rw [lastIndex?]
    cases hl : lastIndex? p l with
    | some j =>
      refine ⟨fun k hk => ?_, by simp⟩
      obtain rfl : j + 1 = k := Option.some.inj hk
      refine ⟨(ih.last j hl).1, fun i hi => ?_⟩
      cases i with
      | zero => exact Nat.zero_le _
      | succ i => exact Nat.succ_le_succ ((ih.last j hl).2 hi)
    | none =>
      -- only the head is left to satisfy `p`
      have hzero : ∀ i, (∃ b, (a :: l)[i]? = some b ∧ p b = true) → i = 0 ∧ p a = true := by
        rintro (_ | i) ⟨b, hb, hpb⟩
        · exact ⟨rfl, Option.some.inj hb ▸ hpb⟩
        · exact absurd ⟨b, hb, hpb⟩ (Set.eq_empty_iff_forall_notMem.mp (ih.empty hl) i)
      constructor
      · intro k hk
        obtain ⟨hp, hk⟩ := Option.ite_none_right_eq_some.mp hk
        obtain rfl : 0 = k := Option.some.inj hk
        exact ⟨⟨a, rfl, hp⟩, fun i hi => Nat.le_of_eq (hzero i hi).1⟩
      · intro hnone
        refine Set.eq_empty_iff_forall_notMem.mpr fun i hi => ?_
        simp [(hzero i hi).2] at hnone

/-- In a list that increases the first hit from the back is the greatest. -/
theorem findsLast_find?_reverse (p : Nat → Bool) {l : List Nat} (hl : l.Pairwise (· < ·)) :
    FindsLast (l.reverse.find? p) {k | k ∈ l ∧ p k = true} := by
  constructor
  · intro k hk
    obtain ⟨hp, behind, before, heq, hbehind⟩ := List.find?_eq_some_iff_append.mp hk
    have hsplit : l = before.reverse ++ k :: behind.reverse := by
      simpa using congrArg List.reverse heq
    refine ⟨⟨by simp [hsplit], hp⟩, fun j ⟨hj, hpj⟩ => ?_⟩
    rw [hsplit, List.mem_append, List.mem_cons] at hj
    rcases hj with hj | rfl | hj
    · exact Nat.le_of_lt ((List.pairwise_append.mp (hsplit ▸ hl)).2.2 j hj k List.mem_cons_self)
    · exact Nat.le_refl _
    · have hnot := hbehind j (List.mem_reverse.mp hj)
      simp [hpj] at hnot
  · intro hnone
    refine Set.eq_empty_iff_forall_notMem.mpr fun k ⟨hk, hp⟩ => ?_
    exact List.find?_eq_none.mp hnone k (List.mem_reverse.mpr hk) hp

/-! ### The module itself and its look-alikes -/

/-- The places of declarations in look-alikes of a module, given those in each module. -/
def inLookAlikes (placesIn : String → Set Nat) (wanted : String) : Set Nat :=
  {k | ∃ m, IsLookAlike m wanted ∧ k ∈ placesIn m}

/-- The last of all places lies in the module itself iff each place in a look-alike has one in the
module behind it. -/
theorem mem_iff_of_isGreatest {own alike : Set Nat} (hd : ∀ j ∈ own, j ∉ alike)
    (h : IsGreatest (own ∪ alike) k) : k ∈ own ↔ ∀ j ∈ alike, ∃ j' ∈ own, j < j' := by
  constructor
  · intro hk j hj
    have hne : j ≠ k := fun heq => hd k hk (heq ▸ hj)
    exact ⟨k, hk, Nat.lt_of_le_of_ne (h.2 (.inr hj)) hne⟩
  · intro hall
    rcases h.1 with hk | hk
    · exact hk
    · obtain ⟨j, hj, hlt⟩ := hall k hk
      exact absurd (h.2 (.inl hj)) (Nat.not_le_of_lt hlt)

section

variable {α : Type} {l : List α} {p : Nat → α → Prop} {module? : α → Option String}

/-- The places of the elements of a list that satisfy `p` and belong to a module. -/
def placesOf (l : List α) (p : Nat → α → Prop) (module? : α → Option String) (m : String) :
    Set Nat :=
  {k | ∃ a, l[k]? = some a ∧ p k a ∧ module? a = some m}

/-- No place is in two modules. -/
theorem notMem_inLookAlikes :
    ∀ k ∈ placesOf l p module? wanted, k ∉ inLookAlikes (placesOf l p module?) wanted := by
  rintro k ⟨a, ha, _, hm⟩ ⟨m, hlike, a', ha', _, hm'⟩
  obtain rfl := Option.some.inj (ha.symm.trans ha')
  obtain rfl := Option.some.inj (hm.symm.trans hm')
  exact Module.not_isLookAlike_self _ hlike

/-- The places in files that stand for a module. -/
theorem setOf_isMatch_eq (hne : wanted ≠ "") :
    {k | ∃ a, l[k]? = some a ∧ p k a ∧ (module? a).any (Module.isMatch · wanted) = true} =
      placesOf l p module? wanted ∪ inLookAlikes (placesOf l p module?) wanted := by
  ext k
  constructor
  · rintro ⟨a, ha, hp, hany⟩
    obtain ⟨m, hm, hmatch⟩ := (Option.any_eq_true _ _).mp hany
    rcases (Module.isMatch_iff hne).mp hmatch with rfl | hlike
    · exact .inl ⟨a, ha, hp, hm⟩
    · exact .inr ⟨m, hlike, a, ha, hp, hm⟩
  · rintro (⟨a, ha, hp, hm⟩ | ⟨m, hlike, a, ha, hp, hm⟩)
    · exact ⟨a, ha, hp, by simp [hm, Module.isMatch_iff hne]⟩
    · exact ⟨a, ha, hp, by simp [hm, Module.isMatch_iff hne, hlike]⟩

end

/-! ### Groups -/

/-- The places of the groups that an include can mean by a name, in the files of each module. -/
def groupPlaces (files : List FileFacts) (i : GroupInclude) (name : String) : String → Set Nat :=
  placesOf (sortedGroups files) (fun _ g => g.key.name = name ∧ g.key ≠ i.parent)
    fun g => moduleOf? files g.key.file

theorem isInModule_eq (files : List FileFacts) (wanted : String) (g : RouteGroup) :
    isInModule files wanted g
      = (moduleOf? files g.key.file).any (Module.isMatch · wanted) := by
  rw [isInModule]
  cases moduleOf? files g.key.file <;> rfl

/-- The search for an imported group takes the last of all places, if there is any. -/
theorem exists_importedGroup?_eq (hne : wanted ≠ "")
    (habs : Module.absolute? (moduleOf? files i.file) module = some wanted)
    (hplaces : (groupPlaces files i name wanted).Nonempty) :
    ∃ k, importedGroup? files (sortedGroups files) i module name = some k ∧
      IsGreatest (groupPlaces files i name wanted ∪
        inLookAlikes (groupPlaces files i name) wanted) k := by
  have hfinds := findsLast_lastIndex? (fun g => (g.key.name == name && g.key != i.parent) &&
    isInModule files wanted g) (sortedGroups files)
  simp only [isInModule_eq, Bool.and_eq_true, beq_iff_eq, bne_iff_ne] at hfinds
  rw [setOf_isMatch_eq hne] at hfinds
  obtain ⟨k, hk, hlast⟩ := hfinds.exists_isGreatest (hplaces.mono Set.subset_union_left)
  refine ⟨k, ?_, hlast⟩
  simp only [importedGroup?, habs, Option.bind_some, isInModule_eq, hk]
  rfl

/-! ### Base classes -/

/-- The places of the classes that a base of class `here` can mean by a name, in each module. -/
def classPlaces (classes : List ClassEntry) (here : Nat) (name : String) : String → Set Nat :=
  placesOf classes (fun k c => k ≠ here ∧ c.decl.name = name) fun c => c.module

/-- The search for an imported base takes the last of all places, if there is any. -/
theorem exists_findBase?_eq {c : ClassEntry} (hne : wanted ≠ "") (hc : classes[here]? = some c)
    (hmodule : base.module = some module)
    (habs : Module.absolute? c.module module = some wanted)
    (hplaces : (classPlaces classes here base.symbol wanted).Nonempty) :
    ∃ k, findBase? classes here base = some k ∧
      IsGreatest (classPlaces classes here base.symbol wanted ∪
        inLookAlikes (classPlaces classes here base.symbol) wanted) k := by
  have hsorted : ((indices (fun c => c.decl.name == base.symbol) classes).filter
      (· != here)).Pairwise (· < ·) :=
    (List.pairwise_lt_range.filter _).filter _
  have hfinds := findsLast_find?_reverse
    (fun k => (classes[k]?.bind (·.module)).any fun m => Module.isMatch m wanted) hsorted
  have hset : {k | k ∈ (indices (fun c => c.decl.name == base.symbol) classes).filter
        (· != here) ∧ (classes[k]?.bind (·.module)).any (fun m => Module.isMatch m wanted) = true} =
      {k | ∃ c, classes[k]? = some c ∧ (k ≠ here ∧ c.decl.name = base.symbol) ∧
        c.module.any (Module.isMatch · wanted) = true} := by
    ext k
    simp only [Set.mem_ofPred_eq, List.mem_filter, indices, List.mem_range, bne_iff_ne]
    cases hk : classes[k]? with
    | none => simp
    | some c =>
      have hlt := (List.getElem?_eq_some_iff.mp hk).1
      simp [hlt, and_comm]
  rw [hset, setOf_isMatch_eq hne] at hfinds
  obtain ⟨k, hk, hlast⟩ := hfinds.exists_isGreatest (hplaces.mono Set.subset_union_left)
  refine ⟨k, ?_, hlast⟩
  simp only [findBase?, hc, hmodule, habs, Option.bind_eq_bind, Option.bind_some,
    candidateInModule?, hk]
  rfl

/-! ### Both searches -/

/-- **Where an import leads.** Let an import name an absolute module in which the imported name is
declared. The search finds a declaration, and it is one in the module itself exactly when each
declaration in a look-alike stands before one in the module. This holds for the group that an
include means and for the class that a base means. -/
theorem target?_findBase?_of_absolute (files : List FileFacts) (wanted : String)
    (hne : wanted ≠ "") :
    (∀ i module name, i.target = .imported module name →
      Module.absolute? (moduleOf? files i.file) module = some wanted →
      (groupPlaces files i name wanted).Nonempty →
      ∃ k, target? files (sortedGroups files) i = some k ∧
        (k ∈ groupPlaces files i name wanted ↔
          ∀ j ∈ inLookAlikes (groupPlaces files i name) wanted,
            ∃ j' ∈ groupPlaces files i name wanted, j < j')) ∧
    ∀ here c base module, (classEntries files)[here]? = some c → base.module = some module →
      Module.absolute? c.module module = some wanted →
      (classPlaces (classEntries files) here base.symbol wanted).Nonempty →
      ∃ k, findBase? (classEntries files) here base = some k ∧
        (k ∈ classPlaces (classEntries files) here base.symbol wanted ↔
          ∀ j ∈ inLookAlikes (classPlaces (classEntries files) here base.symbol) wanted,
            ∃ j' ∈ classPlaces (classEntries files) here base.symbol wanted, j < j') := by
  constructor
  · intro i module name htarget habs hplaces
    obtain ⟨k, hk, hlast⟩ := exists_importedGroup?_eq hne habs hplaces
    exact ⟨k, by simp only [target?, htarget, hk],
      mem_iff_of_isGreatest notMem_inLookAlikes hlast⟩
  · intro here c base module hc hmodule habs hplaces
    obtain ⟨k, hk, hlast⟩ := exists_findBase?_eq hne hc hmodule habs hplaces
    exact ⟨k, hk, mem_iff_of_isGreatest notMem_inLookAlikes hlast⟩

/-- A file with one router and one class. -/
private def declaring (path module : String) : FileFacts :=
  { FileFacts.empty path "python" with
    module := some module
    groups := [{ (default : RouteGroup) with key := ⟨path, "router", 0⟩ }]
    classes := [{ (default : ClassDecl) with name := "Base" }] }

/-- The include of the router that is imported from `app.routers`. -/
def routerInclude : GroupInclude :=
  { (default : GroupInclude) with
    file := "app/main.py"
    parent := ⟨"app/main.py", "app", 0⟩
    target := .imported "app.routers" "router" }

/-- The base class that is imported from `app.routers`. -/
def importedBase : BaseRef := ⟨"Base", "Base", some "app.routers", some "app.routers.Base"⟩

private def application : FileFacts :=
  { FileFacts.empty "app/main.py" "python" with
    module := some "app.main"
    groups := [{ (default : RouteGroup) with key := ⟨"app/main.py", "app", 0⟩ }]
    includes := [routerInclude]
    classes := [{ (default : ClassDecl) with name := "Item", bases := [importedBase] }] }

/-- An application with a package of its own, and a copy of the package at a path before it. -/
def precededByCopy : List FileFacts :=
  [declaring "api/app/routers.py" "api.app.routers", application,
    declaring "app/routers.py" "app.routers"]

/-- An application with a package of its own, and a copy of the package at a path behind it. -/
def followedByCopy : List FileFacts :=
  [application, declaring "app/routers.py" "app.routers",
    declaring "vendor/app/routers.py" "vendor.app.routers"]

theorem sortedGroups_precededByCopy :
    sortedGroups precededByCopy = precededByCopy.flatMap (·.groups) :=
  List.mergeSort_of_pairwise (by decide)

theorem sortedGroups_followedByCopy :
    sortedGroups followedByCopy = followedByCopy.flatMap (·.groups) :=
  List.mergeSort_of_pairwise (by decide)

/-- In front of the package the copy does no harm. -/
theorem target?_findBase?_precededByCopy :
    (∃ k, target? precededByCopy (sortedGroups precededByCopy) routerInclude = some k ∧
      (k ∈ groupPlaces precededByCopy routerInclude "router" "app.routers" ↔
        ∀ j ∈ inLookAlikes (groupPlaces precededByCopy routerInclude "router") "app.routers",
          ∃ j' ∈ groupPlaces precededByCopy routerInclude "router" "app.routers", j < j')) ∧
    ∃ k, findBase? (classEntries precededByCopy) 1 importedBase = some k ∧
      (k ∈ classPlaces (classEntries precededByCopy) 1 "Base" "app.routers" ↔
        ∀ j ∈ inLookAlikes (classPlaces (classEntries precededByCopy) 1 "Base") "app.routers",
          ∃ j' ∈ classPlaces (classEntries precededByCopy) 1 "Base" "app.routers", j < j') := by
  have hplace : 2 ∈ groupPlaces precededByCopy routerInclude "router" "app.routers" := by
    rw [groupPlaces, sortedGroups_precededByCopy]
    exact ⟨_, rfl, by decide, by decide⟩
  obtain ⟨hgroups, hclasses⟩ :=
    target?_findBase?_of_absolute precededByCopy "app.routers" (by decide)
  exact ⟨hgroups routerInclude "app.routers" "router" rfl (by decide) ⟨2, hplace⟩,
    hclasses 1 _ importedBase "app.routers" rfl rfl (by decide)
      ⟨2, _, rfl, by decide, by decide⟩⟩

/-- Behind the package the copy is what the import of the package leads to. -/
theorem target?_findBase?_followedByCopy :
    Module.absolute? (moduleOf? followedByCopy routerInclude.file) "app.routers"
      = some "app.routers" ∧
    (followedByCopy.filter fun f => f.module = some "app.routers").map
      (fun f => (f.path, f.groups.map (·.key.name), f.classes.map (·.name)))
      = [("app/routers.py", ["router"], ["Base"])] ∧
    ((target? followedByCopy (sortedGroups followedByCopy) routerInclude).bind
      fun k => (sortedGroups followedByCopy)[k]?).map (·.key.file)
      = some "vendor/app/routers.py" ∧
    ((findBase? (classEntries followedByCopy) 0 importedBase).bind
      fun k => (classEntries followedByCopy)[k]?).map (·.file)
      = some "vendor/app/routers.py" := by
  rw [sortedGroups_followedByCopy]
  decide +kernel

end ApiSurface.Project
