import ApiSurface.Proofs.Project.InheritedValues
import ApiSurface.Proofs.Project.Merging

/-!
# Field lists on any graph of bases

On a cycle of bases some class is merged while a base of it is still open, so which fields it takes
over depends on where the walk begins. Some things hold all the same (`fieldLists_of_recognised`):
the stack runs empty from any state, exactly the recognised classes get a list, and in each list the
names are distinct, the last own declaration of a name stands for that name, and every other entry
is a declaration of a class that is inherited from, under the name of that class.

What one class makes of the lists of its bases has distinct names and the own declarations, whatever
those lists are (`nodup_names_combine`, `mem_combine_of_declared?`). So the walk only has to be asked
which classes it leaves (`Filled`).
-/

namespace ApiSurface.Project.Hierarchy

variable {h : Hierarchy} {m : Marks} {p q : Progress} {i d : Nat} {f g : SchemaField}
  {l : List SchemaField} {fieldsOf : Nat → Option (List SchemaField)}

/-! ### Turns of the loop -/

/-- One turn of the loop: what is on the top of the stack is done. -/
def turn (h : Hierarchy) (m : Marks) : Progress × List Task → Progress × List Task
  | (p, []) => (p, [])
  | (p, .leave i :: rest) => (p.leave i (h.combine m p.fields? i), rest)
  | (p, .enter i :: rest) =>
    if p.isFresh i then
      (p.enter i, ((h.recognisedBases m i).filter (p.enter i).isFresh).map .enter
        ++ .leave i :: rest)
    else (p, rest)

/-- **The loop ends.** From every state the stack runs empty after finitely many turns. -/
theorem exists_iterate_turn (h : Hierarchy) (m : Marks) (p : Progress) (tasks : List Task) :
    ∃ n, (h.turn m)^[n] (p, tasks) = (h.drain m p tasks, []) := by
  fun_induction drain h m p tasks with
  | case1 p => exact ⟨0, rfl⟩
  | case2 p i rest ih =>
    obtain ⟨n, hn⟩ := ih
    exact ⟨n + 1, hn⟩
  | case3 p i rest hfresh entered pending ih =>
    obtain ⟨n, hn⟩ := ih
    refine ⟨n + 1, ?_⟩
    rw [Function.iterate_succ_apply, turn, if_pos hfresh]
    exact hn
  | case4 p i rest hfresh ih =>
    obtain ⟨n, hn⟩ := ih
    refine ⟨n + 1, ?_⟩
    rw [Function.iterate_succ_apply, turn, if_neg hfresh]
    exact hn

/-! ### One list -/

/-- The last declaration of a name in the body of a class. -/
def declared? (h : Hierarchy) (i : Nat) (name : String) : Option SchemaField :=
  (h.ownFields i).reverse.find? fun f => f.name == name

theorem mem_ownFields_of_declared? {name : String} (hf : h.declared? i name = some f) :
    f ∈ h.ownFields i ∧ f.name = name :=
  ⟨List.mem_reverse.mp (List.mem_of_find?_eq_some hf), by simpa using List.find?_some hf⟩

theorem names_addInherited (l : List SchemaField) (f : SchemaField) :
    (addInherited l f).map (·.name)
      = if f.name ∈ l.map (·.name) then l.map (·.name) else l.map (·.name) ++ [f.name] := by
  have hany : l.any (fun g => g.name == f.name) ↔ f.name ∈ l.map (·.name) := by
    simp [List.any_eq_true, List.mem_map]
  unfold addInherited
  by_cases hmem : f.name ∈ l.map (·.name)
  · rw [if_pos (hany.mpr hmem), if_pos hmem]
  · rw [if_neg (mt hany.mp hmem), if_neg hmem, List.map_append]
    rfl

theorem names_put (f : SchemaField) (l : List SchemaField) :
    (f.put l).map (·.name)
      = if f.name ∈ l.map (·.name) then l.map (·.name) else l.map (·.name) ++ [f.name] := by
  induction l with
  | nil => rfl
  | cons g l ih =>
    rw [SchemaField.put]
    by_cases hname : g.name = f.name
    · rw [if_pos hname, if_pos (by simp [hname])]
      simp [hname]
    · rw [if_neg hname, List.map_cons, ih]
      by_cases hmem : f.name ∈ l.map (·.name)
      · simp [hmem]
      · simp [hmem, Ne.symm hname]

/-- A name is added once. -/
theorem nodup_addName {names : List String} (hnames : names.Nodup) (name : String) :
    (if name ∈ names then names else names ++ [name]).Nodup := by
  split
  · exact hnames
  · next hnot =>
    rw [List.nodup_append]
    exact ⟨hnames, List.nodup_singleton name, fun a ha b hb hab =>
      hnot (List.mem_singleton.mp hb ▸ hab ▸ ha)⟩

/-- Steps that keep the names distinct do so one after the other. -/
theorem nodup_names_foldl {α : Type} {step : List SchemaField → α → List SchemaField}
    (hstep : ∀ l a, (l.map (·.name)).Nodup → ((step l a).map (·.name)).Nodup) (as : List α)
    (hl : (l.map (·.name)).Nodup) : ((as.foldl step l).map (·.name)).Nodup :=
  List.foldlRecOn (motive := fun l => (l.map (·.name)).Nodup) as step hl fun l hl a _ =>
    hstep l a hl

/-- **Distinct names**, whatever the lists of the bases are. -/
theorem nodup_names_combine (h : Hierarchy) (m : Marks)
    (fieldsOf : Nat → Option (List SchemaField)) (i : Nat) :
    ((h.combine m fieldsOf i).map (·.name)).Nodup := by
  have hadd : ∀ (l : List SchemaField) (f : SchemaField), (l.map (·.name)).Nodup →
      ((addInherited l f).map (·.name)).Nodup := fun l f hl => by
    rw [names_addInherited]
    exact nodup_addName hl f.name
  have hput : ∀ (l : List SchemaField) (f : SchemaField), (l.map (·.name)).Nodup →
      ((f.put l).map (·.name)).Nodup := fun l f hl => by
    rw [names_put]
    exact nodup_addName hl f.name
  rw [combine_eq_foldl]
  refine nodup_names_foldl hput _ (nodup_names_foldl (fun l b hl => ?_) _ List.nodup_nil)
  split
  · exact nodup_names_foldl hadd _ hl
  · exact hl

theorem mem_put_self (f : SchemaField) (l : List SchemaField) : f ∈ f.put l := by
  induction l with
  | nil => exact List.mem_singleton_self f
  | cons g l ih =>
    rw [SchemaField.put]
    split
    · exact List.mem_cons_self
    · exact List.mem_cons_of_mem g ih

theorem mem_put_of_ne (hf : f ∈ l) (hne : g.name ≠ f.name) : f ∈ g.put l := by
  induction l with
  | nil => cases hf
  | cons e l ih =>
    rw [SchemaField.put]
    split
    · next hname =>
      rcases List.mem_cons.mp hf with rfl | hf
      · exact absurd hname.symm hne
      · exact List.mem_cons_of_mem g hf
    · rcases List.mem_cons.mp hf with rfl | hf
      · exact List.mem_cons_self
      · exact List.mem_cons_of_mem e (ih hf)

/-- Of the fields that are put in place the last one of each name stays. -/
theorem mem_foldl_put {own : List SchemaField} {name : String} (l : List SchemaField)
    (hf : own.reverse.find? (fun f => f.name == name) = some f) :
    f ∈ own.foldl (fun fields f => f.put fields) l := by
  induction own using List.reverseRecOn with
  | nil => cases hf
  | append_singleton own g ih =>
    rw [List.foldl_append, List.foldl_cons, List.foldl_nil]
    rw [List.reverse_append, List.reverse_singleton, List.singleton_append] at hf
    by_cases hg : g.name = name
    · rw [List.find?_cons_of_pos (by simpa using hg)] at hf
      exact Option.some.inj hf ▸ mem_put_self g _
    · rw [List.find?_cons_of_neg (by simpa using hg)] at hf
      have hname : f.name = name := by simpa using List.find?_some hf
      exact mem_put_of_ne (ih hf) (hname.symm ▸ hg)

/-- **Own declarations** are listed, whatever the lists of the bases are. -/
theorem mem_combine_of_declared? {name : String} (m : Marks)
    (fieldsOf : Nat → Option (List SchemaField)) (hf : h.declared? i name = some f) :
    f ∈ h.combine m fieldsOf i := by
  rw [combine_eq_foldl]
  exact mem_foldl_put _ hf

/-- An own field is listed only as the last declaration of its name. -/
theorem declared?_of_mem_combine (hf : f ∈ h.combine m fieldsOf i) (hown : f ∈ h.ownFields i) :
    h.declared? i f.name = some f := by
  obtain ⟨g, hg⟩ : ∃ g, h.declared? i f.name = some g :=
    Option.isSome_iff_exists.mp <| List.find?_isSome.mpr
      ⟨f, List.mem_reverse.mpr hown, beq_self_eq_true f.name⟩
  have hlisted := mem_combine_of_declared? m fieldsOf hg
  have hname := (mem_ownFields_of_declared? hg).2
  rw [hg, List.inj_on_of_nodup_map (h.nodup_names_combine m fieldsOf i) hlisted hf hname]

/-! ### Which classes have a list -/

/-- What every step preserves: only recognised classes are entered, and each class that was left has
a list that was made of lists of its bases. -/
structure Filled (h : Hierarchy) (m : Marks) (p : Progress) : Prop where
  length_fields : p.fields.length = p.stages.length
  recognised : ∀ i s, p.stage? i = some s → s ≠ .fresh → (m.kind? i).isSome
  combined : ∀ i, p.stage? i = some .done →
    ∃ fieldsOf, p.fields? i = some (h.combine m fieldsOf i)

theorem Filled.start (h : Hierarchy) (m : Marks) (size : Nat) : h.Filled m (.start size) where
  length_fields := by simp [Progress.start]
  recognised i s hs hne := absurd (Progress.stage?_start hs) hne
  combined i hi := by cases Progress.stage?_start hi

theorem Filled.enter (hp : h.Filled m p) (hfresh : p.isFresh i) (hi : (m.kind? i).isSome) :
    h.Filled m (p.enter i) where
  length_fields := hp.length_fields.trans List.length_set.symm
  recognised j s hs hne := by
    by_cases hij : i = j
    · exact hij ▸ hi
    · rw [Progress.stage?_enter_of_ne hij] at hs
      exact hp.recognised j s hs hne
  combined j hj := by
    have hlt := (List.getElem?_eq_some_iff.mp (Progress.isFresh_iff.mp hfresh)).1
    have hij : i ≠ j := by
      rintro rfl
      rw [Progress.stage?_enter_self hlt] at hj
      cases hj
    rw [Progress.stage?_enter_of_ne hij] at hj
    exact hp.combined j hj

theorem Filled.leave (hp : h.Filled m p) (hopen : p.stage? i = some .opened) :
    h.Filled m (p.leave i (h.combine m p.fields? i)) := by
  have hlt : i < p.stages.length := (List.getElem?_eq_some_iff.mp hopen).1
  refine ⟨List.length_set.trans (hp.length_fields.trans List.length_set.symm),
    fun j s hs hne => ?_, fun j hj => ?_⟩
  · by_cases hij : i = j
    · exact hij ▸ hp.recognised i .opened hopen (by decide)
    · rw [Progress.stage?_leave_of_ne _ hij] at hs
      exact hp.recognised j s hs hne
  · by_cases hij : i = j
    · subst hij
      exact ⟨p.fields?, Progress.fields?_leave_self _ (hp.length_fields ▸ hlt)⟩
    · rw [Progress.stage?_leave_of_ne _ hij] at hj
      rw [Progress.fields?_leave_of_ne _ hij]
      exact hp.combined j hj

/-- A run fills the lists of the recognised classes that it leaves, and of no other ones. -/
theorem filled_drain {tasks : List Task} (hp : h.Filled m p) (hs : Awaits p tasks)
    (hrecognised : ∀ i, .enter i ∈ tasks → (m.kind? i).isSome) :
    h.Filled m (h.drain m p tasks) := by
  fun_induction drain h m p tasks with
  | case1 p => exact hp
  | case2 p i rest ih =>
    exact ih (hp.leave (hs.opened i List.mem_cons_self)) (hs.leave _)
      fun j hj => hrecognised j (List.mem_cons_of_mem _ hj)
  | case3 p i rest hfresh entered pending ih =>
    refine ih (hp.enter hfresh (hrecognised i List.mem_cons_self)) (hs.enter hfresh pending) ?_
    -- the bases that are put on the stack are recognised
    intro j hj
    rcases List.mem_append.mp hj with hj | hj
    · obtain ⟨b, hb, heq⟩ := List.mem_map.mp hj
      cases heq
      exact (List.mem_filter.mp (List.mem_of_mem_filter hb)).2
    · rcases List.mem_cons.mp hj with heq | hj
      · cases heq
      · exact hrecognised j (List.mem_cons_of_mem _ hj)
  | case4 p i rest _ ih =>
    exact ih hp ⟨hs.nodup, hs.opened⟩ fun j hj => hrecognised j (List.mem_cons_of_mem _ hj)

theorem filled_allFields (h : Hierarchy) (m : Marks) : h.Filled m (h.allFields m) := by
  rw [allFields, foldl_drain_enter]
  refine filled_drain (.start h m h.size) (.start _ _) fun i hi => ?_
  obtain ⟨j, hj, heq⟩ := List.mem_map.mp hi
  cases heq
  exact (List.mem_filter.mp hj).2

theorem exists_combine_of_fields? (hl : (h.allFields m).fields? i = some l) :
    (m.kind? i).isSome ∧ ∃ fieldsOf, l = h.combine m fieldsOf i := by
  have hfilled := h.filled_allFields m
  have hdone := (h.traced_allFields m).done i l hl
  obtain ⟨fieldsOf, hfields⟩ := hfilled.combined i hdone
  exact ⟨hfilled.recognised i .done hdone (by decide), fieldsOf,
    Option.some.inj (hl.symm.trans hfields)⟩

/-- **Exactly the recognised classes have a list.** -/
theorem isSome_fields?_iff (hm : m.kinds.length = h.size) :
    ((h.allFields m).fields? i).isSome ↔ (m.kind? i).isSome := by
  constructor
  · intro hfields
    obtain ⟨l, hl⟩ := Option.isSome_iff_exists.mp hfields
    exact (exists_combine_of_fields? hl).1
  · intro hi
    obtain ⟨fieldsOf, hfields⟩ := (h.filled_allFields m).combined i ((agrees_allFields hm).2 i hi)
    exact Option.isSome_of_eq_some hfields

/-! ### What the lists hold -/

/-- Class `i` lists the declaration `f` of a recognised class that recognised bases lead to, under
the name of that class. -/
def ListsInherited (h : Hierarchy) (m : Marks) (i : Nat) (f : SchemaField) : Prop :=
  ∃ d c g, h.Inherits m i d ∧ (m.kind? d).isSome ∧ h.classes[d]? = some c ∧
    h.declared? d f.name = some g ∧ f = { g with inheritedFrom := some c.decl.name }

/-- What holds of the list of every class. -/
structure IsFieldList (h : Hierarchy) (m : Marks) (i : Nat) (l : List SchemaField) : Prop where
  nodup_names : (l.map (·.name)).Nodup
  /-- The last own declaration of a name stands for the name, and has no label. -/
  own : ∀ name f, h.declared? i name = some f → f ∈ l ∧ f.inheritedFrom = none
  /-- Anything else is inherited, under a name that the class does not declare. -/
  entries : ∀ f ∈ l, h.declared? i f.name = some f ∨
    h.declared? i f.name = none ∧ h.ListsInherited m i f

theorem isFieldList_of_fields?
    (hplain : ∀ c ∈ h.classes, ∀ f ∈ c.decl.fields, f.inheritedFrom = none)
    (hl : (h.allFields m).fields? i = some l) : h.IsFieldList m i l := by
  have hplain' : ∀ j, ∀ g ∈ h.ownFields j, g.inheritedFrom = none := fun j g hg => by
    obtain ⟨c, hc, hmem⟩ := exists_class_of_mem_ownFields hg
    exact hplain c (List.mem_of_getElem? hc) g hmem
  obtain ⟨-, fieldsOf, heq⟩ := exists_combine_of_fields? hl
  have hnames : (l.map (·.name)).Nodup := heq ▸ h.nodup_names_combine m fieldsOf i
  have hown : ∀ name f, h.declared? i name = some f → f ∈ l := fun name f hf =>
    heq ▸ mem_combine_of_declared? m fieldsOf hf
  refine ⟨hnames, fun name f hf => ⟨hown name f hf,
    hplain' i f (mem_ownFields_of_declared? hf).1⟩, fun f hf => ?_⟩
  cases hdeclared : h.declared? i f.name with
  | some g =>
    -- the own declaration of the name is listed, and no other entry has that name
    have hname := (mem_ownFields_of_declared? hdeclared).2
    exact .inl (congrArg some (List.inj_on_of_nodup_map hnames (hown _ g hdeclared) hf hname))
  | none =>
    refine .inr ⟨rfl, ?_⟩
    rcases hasOrigin_allFields hl hf with hf' | ⟨d, g, htakes⟩
    · rw [declared?_of_mem_combine (heq ▸ hf) hf'] at hdeclared
      cases hdeclared
    · obtain ⟨l', hl', hg⟩ := htakes.listed
      obtain ⟨hd, fieldsOf', heq'⟩ := exists_combine_of_fields? hl'
      obtain ⟨c, hc, -⟩ := exists_class_of_mem_ownFields htakes.declared
      have hlabel : g.inheritedFrom = none := hplain' d g htakes.declared
      have hname : f.name = g.name := by rw [htakes.eq, inherit]
      refine ⟨d, c, g, htakes.inherits, hd, hc, ?_, ?_⟩
      · rw [hname]
        exact declared?_of_mem_combine (heq' ▸ hg) htakes.declared
      · rw [htakes.eq, inherit, hlabel, hc]
        rfl

/-! ### Schemas -/

/-- The schema of a class, when it has one. -/
def schemaAt? (h : Hierarchy) (i : Nat) : Option Schema :=
  h.classes[i]?.bind (h.schema? h.marks (h.allFields h.marks) i)

theorem isSchemaOf_iff {s : Schema} : h.IsSchemaOf i s ↔ h.schemaAt? i = some s :=
  Option.bind_eq_some_iff.symm

theorem schemas_perm_filterMap (h : Hierarchy) :
    h.schemas.Perm ((List.range h.size).filterMap h.schemaAt?) := by
  have hmap : h.classes.mapIdx (h.schema? h.marks (h.allFields h.marks))
      = (List.range h.size).map h.schemaAt? := by
    refine List.ext_getElem (by simp [size]) fun i hi _ => ?_
    rw [List.length_mapIdx] at hi
    simp [schemaAt?, hi]
  have hid : (h.classes.mapIdx (h.schema? h.marks (h.allFields h.marks))).filterMap id
      = (List.range h.size).filterMap h.schemaAt? := by
    rw [hmap, List.filterMap_map]
    rfl
  exact hid ▸ List.mergeSort_perm _ _

/-- **One schema for each recognised class** and no other one, with the fields of its list. -/
theorem exists_schemas_perm (h : Hierarchy) :
    ∃ schemaOf : Nat → Schema, h.schemas.Perm ((h.recognised h.marks).map schemaOf) ∧
      ∀ i ∈ h.recognised h.marks, h.IsSchemaOf i (schemaOf i) ∧
        ∃ l, (h.allFields h.marks).fields? i = some l ∧
          (schemaOf i).fields = l.map (h.withEnumValues h.marks i) := by
  have hm := (fits_marks h).length_kinds
  have hsome : ∀ i ∈ h.recognised h.marks, ∃ s, h.schemaAt? i = some s := by
    intro i hi
    obtain ⟨hlt, hk⟩ := List.mem_filter.mp hi
    obtain ⟨l, hl⟩ := Option.isSome_iff_exists.mp ((isSome_fields?_iff hm).mpr hk)
    have hc := List.getElem?_eq_getElem (List.mem_range.mp hlt)
    obtain ⟨s, hs, -⟩ := exists_isSchemaOf hc hk hl
    exact ⟨s, isSchemaOf_iff.mp hs⟩
  have hnone : ∀ i, (h.marks.kind? i).isSome = false → h.schemaAt? i = none := by
    intro i hk
    cases hs : h.schemaAt? i with
    | none => rfl
    | some s =>
      obtain ⟨l, hl, -⟩ := (isSchemaOf_iff.mpr hs).exists_fields
      rw [(exists_combine_of_fields? hl).1] at hk
      cases hk
  let schemaOf (i : Nat) : Schema := (h.schemaAt? i).getD default
  have heq : ∀ i ∈ h.recognised h.marks, h.schemaAt? i = some (schemaOf i) := fun i hi => by
    obtain ⟨s, hs⟩ := hsome i hi
    simp [schemaOf, hs]
  refine ⟨schemaOf, ?_, fun i hi => ⟨isSchemaOf_iff.mpr (heq i hi),
    (isSchemaOf_iff.mpr (heq i hi)).exists_fields⟩⟩
  have hmap : (List.range h.size).filterMap h.schemaAt?
      = (h.recognised h.marks).map schemaOf := by
    rw [← List.filterMap_eq_map, recognised, List.filterMap_filter]
    refine List.filterMap_congr fun i hi => ?_
    cases hk : (h.marks.kind? i).isSome with
    | true => simpa using heq i (List.mem_filter.mpr ⟨hi, hk⟩)
    | false => simpa using hnone i hk
  exact hmap ▸ h.schemas_perm_filterMap

/-- **Field lists on any graph.** Let declared fields carry no label, as in the facts of files that
were read (`Source.inheritedFrom_of_mem_facts`). Whatever cycles the bases form, the loop over a
stack ends, the classes that get a list are the recognised ones, there is one schema for each of
them and no other one, and every list has distinct names, the own declarations, and declarations of
recognised classes that are inherited from, each under the name of its class. -/
theorem fieldLists_of_recognised (h : Hierarchy)
    (hplain : ∀ c ∈ h.classes, ∀ f ∈ c.decl.fields, f.inheritedFrom = none) :
    (∀ p tasks, ∃ n, (h.turn h.marks)^[n] (p, tasks) = (h.drain h.marks p tasks, [])) ∧
    (∀ i, ((h.allFields h.marks).fields? i).isSome ↔ (h.marks.kind? i).isSome) ∧
    (∃ schemaOf : Nat → Schema, h.schemas.Perm ((h.recognised h.marks).map schemaOf) ∧
      ∀ i ∈ h.recognised h.marks, h.IsSchemaOf i (schemaOf i) ∧
        ∃ l, (h.allFields h.marks).fields? i = some l ∧
          (schemaOf i).fields = l.map (h.withEnumValues h.marks i)) ∧
    ∀ i l, (h.allFields h.marks).fields? i = some l → h.IsFieldList h.marks i l :=
  ⟨exists_iterate_turn h h.marks, fun _ => isSome_fields?_iff (fits_marks h).length_kinds,
    exists_schemas_perm h, fun _ _ => isFieldList_of_fields? hplain⟩

/-- A class that declares fields of some names. -/
private def ringClass (name : String) (fields : List String) (kind : Option SchemaKind) :
    ClassEntry where
  file := "ring.py"
  module := none
  decl := { (default : ClassDecl) with
    name
    directKind := kind
    fields := fields.map fun f => { (default : SchemaField) with name := f } }

/-- Two classes that are bases of each other, one of them also of itself, below a class that is no
data shape and above one that declares a field twice. -/
def ring : Hierarchy where
  classes := [ringClass "First" ["a", "id"] (some .dataclass), ringClass "Second" ["b"] none,
    ringClass "Plain" ["c"] none, ringClass "Leaf" ["id", "own", "id"] none]
  bases := [[2, 1], [1, 0, 2], [], [1, 1, 0]]
  length_bases := rfl

/-- A class on the ring and one below it get their lists, the class outside gets none. -/
theorem fieldLists_of_recognised_ring :
    (∀ c ∈ ring.classes, ∀ f ∈ c.decl.fields, f.inheritedFrom = none) ∧
    (∃ l, (ring.allFields ring.marks).fields? 0 = some l ∧ ring.IsFieldList ring.marks 0 l) ∧
    (∃ l, (ring.allFields ring.marks).fields? 3 = some l ∧ ring.IsFieldList ring.marks 3 l) ∧
    (ring.allFields ring.marks).fields? 2 = none ∧ ring.schemas.length = 3 := by
  have hplain : ∀ c ∈ ring.classes, ∀ f ∈ c.decl.fields, f.inheritedFrom = none := by decide
  obtain ⟨-, hlists, ⟨schemaOf, hperm, -⟩, hfields⟩ := fieldLists_of_recognised ring hplain
  have hlist : ∀ i, (ring.marks.kind? i).isSome → ∃ l,
      (ring.allFields ring.marks).fields? i = some l ∧ ring.IsFieldList ring.marks i l :=
    fun i hi => by
      obtain ⟨l, hl⟩ := Option.isSome_iff_exists.mp ((hlists i).mpr hi)
      exact ⟨l, hl, hfields i l hl⟩
  have hnone : ¬ ((ring.allFields ring.marks).fields? 2).isSome := by
    rw [hlists]
    decide
  refine ⟨hplain, hlist 0 (by decide), hlist 3 (by decide), by simpa using hnone, ?_⟩
  rw [hperm.length_eq, List.length_map]
  decide

example : ((ring.allFields ring.marks).fields? 3).map (·.map fun f => (f.name, f.inheritedFrom))
    = some [("b", some "Second"), ("a", some "First"), ("id", none), ("own", none)] := by
  cbv

end ApiSurface.Project.Hierarchy
