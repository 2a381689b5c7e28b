import ApiSurface.Proofs.Project.Inheritance
import ApiSurface.Proofs.Schema.Members

/-!
# Where inherited fields come from

On any graph of bases, with cycles or not, the walk over the classes gives a class only fields that
it declares itself and fields of classes that it inherits from: each of those is declared by the
class whose name is its label, and still stands among the fields of that class when the walk is over
(`hasOrigin_allFields`).

`Traced` is what every step preserves. That an entry stays where it came from needs that no class is
left twice, so the tasks of leaving on the stack are kept apart, and their classes are all open
(`Awaits`).
-/

namespace ApiSurface.Project.Hierarchy

variable {h : Hierarchy} {m : Marks} {p : Progress} {i j d b : Nat} {f g : SchemaField}
  {fieldsOf fieldsOf' : Nat → Option (List SchemaField)}

/-! ### One class -/

theorem mem_addInherited {l : List SchemaField} (hg : g ∈ addInherited l f) : g ∈ l ∨ g = f := by
  unfold addInherited at hg
  split at hg
  · exact .inl hg
  · simpa using hg

/-- The entry of a base that a class takes over. -/
def Offers (h : Hierarchy) (fieldsOf : Nat → Option (List SchemaField)) (b : Nat)
    (f : SchemaField) : Prop :=
  ∃ l, fieldsOf b = some l ∧ ∃ g ∈ l, f = h.inherit b g

/-- A class gets its own fields and those that its recognised bases offer. -/
theorem mem_combine (hf : f ∈ h.combine m fieldsOf i) :
    f ∈ h.ownFields i ∨ ∃ b ∈ h.recognisedBases m i, h.Offers fieldsOf b f := by
  have hinherited : ∀ f ∈ h.takenOver m fieldsOf i,
      ∃ b ∈ h.recognisedBases m i, h.Offers fieldsOf b f := by
    intro f hf
    refine (mem_or_exists_of_mem_foldl (q := h.Offers fieldsOf) (fun l b x hx => ?_)
      hf).resolve_left List.not_mem_nil
    split at hx
    · next lb hlb =>
      rcases mem_or_exists_of_mem_foldl (q := fun g x => x = g) (fun _ _ _ => mem_addInherited)
        hx with hx | ⟨g, hg, heq⟩
      · exact .inl hx
      · obtain ⟨e, he, rfl⟩ := List.mem_map.mp hg
        exact .inr ⟨lb, hlb, e, he, heq⟩
    · exact .inl hx
  rw [combine_eq_foldl] at hf
  rcases mem_or_exists_of_mem_foldl (q := fun g x => x = g) (fun _ _ _ => SchemaField.mem_put) hf with
    hf | ⟨g, hg, rfl⟩
  · exact .inr (hinherited f hf)
  · exact .inl hg

/-! ### Origins -/

/-- One or more recognised bases lead from the class `i` to the class `d`. -/
def Inherits (h : Hierarchy) (m : Marks) : Nat → Nat → Prop :=
  Relation.TransGen fun i b => b ∈ h.recognisedBases m i

/-- The class `i` has the field `f` from the class `d`, which declares it as `g` and still has it
like that. -/
structure Takes (h : Hierarchy) (m : Marks) (fieldsOf : Nat → Option (List SchemaField))
    (i d : Nat) (f g : SchemaField) : Prop where
  inherits : h.Inherits m i d
  declared : g ∈ h.ownFields d
  listed : ∃ l, fieldsOf d = some l ∧ g ∈ l
  eq : f = h.inherit d g

/-- The class declares the field itself or has it from another one. -/
def HasOrigin (h : Hierarchy) (m : Marks) (fieldsOf : Nat → Option (List SchemaField)) (i : Nat)
    (f : SchemaField) : Prop :=
  f ∈ h.ownFields i ∨ ∃ d g, h.Takes m fieldsOf i d f g

theorem HasOrigin.mono (hf : h.HasOrigin m fieldsOf i f)
    (hle : ∀ d l, fieldsOf d = some l → fieldsOf' d = some l) : h.HasOrigin m fieldsOf' i f :=
  hf.imp_right fun ⟨d, g, ht⟩ => ⟨d, g, ht.inherits, ht.declared,
    ht.listed.imp fun l hl => ⟨hle d l hl.1, hl.2⟩, ht.eq⟩

/-- What has a label keeps it. -/
theorem inherit_inherit (hg : g ∈ h.ownFields d) (b : Nat) :
    h.inherit b (h.inherit d g) = h.inherit d g := by
  obtain ⟨c, hc, -⟩ := exists_class_of_mem_ownFields hg
  cases hlabel : g.inheritedFrom <;> simp [inherit, hc, hlabel]

/-- What a base offers comes from where the base has it, or from the base. -/
theorem hasOrigin_of_offers
    (horigin : ∀ b l, fieldsOf b = some l → ∀ g ∈ l, h.HasOrigin m fieldsOf b g)
    (hb : b ∈ h.recognisedBases m i) (hf : h.Offers fieldsOf b f) : h.HasOrigin m fieldsOf i f := by
  obtain ⟨l, hl, g, hg, rfl⟩ := hf
  rcases horigin b l hl g hg with hown | ⟨d, e, ht⟩
  · exact .inr ⟨b, g, .single hb, hown, ⟨l, hl, hg⟩, rfl⟩
  · exact .inr ⟨d, e, .head hb ht.inherits, ht.declared, ht.listed, by
      rw [ht.eq, inherit_inherit ht.declared]⟩

/-! ### The walk -/

/-- What every step preserves: only classes that were left have fields, and those have origins. -/
structure Traced (h : Hierarchy) (m : Marks) (p : Progress) : Prop where
  length_fields : p.fields.length = p.stages.length
  done : ∀ i l, p.fields? i = some l → p.stage? i = some .done
  hasOrigin : ∀ i l, p.fields? i = some l → ∀ f ∈ l, h.HasOrigin m p.fields? i f

theorem Progress.fields?_start (size i : Nat) : (Progress.start size).fields? i = none := by
  rw [Progress.fields?, Progress.start, List.getElem?_replicate]
  split <;> rfl

theorem Traced.start (h : Hierarchy) (m : Marks) (size : Nat) : h.Traced m (.start size) where
  length_fields := by simp [Progress.start]
  done i l hl := by rw [Progress.fields?_start] at hl; cases hl
  hasOrigin i l hl := by rw [Progress.fields?_start] at hl; cases hl

theorem Traced.enter (hp : h.Traced m p) (hfresh : p.isFresh i) : h.Traced m (p.enter i) where
  length_fields := hp.length_fields.trans List.length_set.symm
  done j l hl := by
    have hdone := hp.done j l hl
    have hne : i ≠ j := by
      rintro rfl
      rw [Progress.isFresh_iff.mp hfresh] at hdone
      cases hdone
    exact (Progress.stage?_enter_of_ne hne).trans hdone
  hasOrigin := hp.hasOrigin

theorem Traced.leave (hp : h.Traced m p) (hopen : p.stage? i = some .opened) :
    h.Traced m (p.leave i (h.combine m p.fields? i)) := by
  set new := h.combine m p.fields? i
  have hi : i < p.stages.length := (List.getElem?_eq_some_iff.mp hopen).1
  have hself : (p.leave i new).fields? i = some new :=
    Progress.fields?_leave_self new (hp.length_fields ▸ hi)
  -- the class had no fields before, so what others were given stays
  have hle : ∀ d l, p.fields? d = some l → (p.leave i new).fields? d = some l := fun d l hl => by
    have hne : i ≠ d := by
      rintro rfl
      rw [hp.done i l hl] at hopen
      cases hopen
    exact (Progress.fields?_leave_of_ne new hne).trans hl
  have hcases : ∀ j l, (p.leave i new).fields? j = some l →
      i = j ∧ l = new ∨ i ≠ j ∧ p.fields? j = some l := fun j l hl => by
    by_cases hij : i = j
    · subst hij
      rw [hself] at hl
      exact .inl ⟨rfl, (Option.some.inj hl).symm⟩
    · exact .inr ⟨hij, (Progress.fields?_leave_of_ne new hij).symm.trans hl⟩
  refine ⟨List.length_set.trans (hp.length_fields.trans List.length_set.symm),
    fun j l hl => ?_, fun j l hl f hf => ?_⟩
  · rcases hcases j l hl with ⟨rfl, -⟩ | ⟨hne, hl⟩
    · exact Progress.stage?_leave_self new hi
    · exact (Progress.stage?_leave_of_ne new hne).trans (hp.done j l hl)
  · rcases hcases j l hl with ⟨rfl, rfl⟩ | ⟨-, hl⟩
    · have hnew : h.HasOrigin m p.fields? i f := by
        rcases mem_combine hf with hown | ⟨b, hb, hoffers⟩
        · exact .inl hown
        · exact hasOrigin_of_offers hp.hasOrigin hb hoffers
      exact hnew.mono hle
    · exact (hp.hasOrigin j l hl f hf).mono hle

/-- The classes that a stack will leave. -/
def leaving (tasks : List Task) : List Nat :=
  tasks.filterMap fun
    | .leave i => some i
    | .enter _ => none

theorem leaving_map_enter (l : List Nat) : leaving (l.map .enter) = [] := by
  simp [leaving]

/-- Each class that the stack will leave is open and will be left once. -/
structure Awaits (p : Progress) (tasks : List Task) : Prop where
  nodup : (leaving tasks).Nodup
  opened : ∀ i ∈ leaving tasks, p.stage? i = some .opened

theorem Awaits.start (p : Progress) (l : List Nat) : Awaits p (l.map .enter) := by
  constructor <;> simp [leaving_map_enter]

theorem Awaits.enter {rest : List Task} (hs : Awaits p (.enter i :: rest)) (hfresh : p.isFresh i)
    (pending : List Nat) : Awaits (p.enter i) (pending.map .enter ++ .leave i :: rest) := by
  have hstage := Progress.isFresh_iff.mp hfresh
  have hleaving : leaving (pending.map .enter ++ .leave i :: rest) = i :: leaving rest := by
    rw [leaving, List.filterMap_append]
    exact congrArg (· ++ _) (leaving_map_enter pending)
  have hrest : ∀ j ∈ leaving rest, i ≠ j := by
    rintro j hj rfl
    rw [hs.opened i hj] at hstage
    cases hstage
  constructor
  · rw [hleaving, List.nodup_cons]
    exact ⟨fun hi => hrest i hi rfl, hs.nodup⟩
  · rw [hleaving]
    rintro j (_ | ⟨_, hj⟩)
    · exact Progress.stage?_enter_self (List.getElem?_eq_some_iff.mp hstage).1
    · exact (Progress.stage?_enter_of_ne (hrest j hj)).trans (hs.opened j hj)

theorem Awaits.leave {rest : List Task} (hs : Awaits p (.leave i :: rest))
    (l : List SchemaField) : Awaits (p.leave i l) rest := by
  obtain ⟨hi, hrest⟩ := List.nodup_cons.mp hs.nodup
  refine ⟨hrest, fun j hj => ?_⟩
  have hne : i ≠ j := fun heq => hi (heq ▸ hj)
  exact (Progress.stage?_leave_of_ne l hne).trans (hs.opened j (List.mem_cons_of_mem i hj))

/-- **A run keeps origins.** -/
theorem traced_drain {tasks : List Task} (hp : h.Traced m p) (hs : Awaits p tasks) :
    h.Traced m (h.drain m p tasks) := by
  fun_induction drain h m p tasks with
  | case1 p => exact hp
  | case2 p i rest ih =>
    exact ih (hp.leave (hs.opened i List.mem_cons_self)) (hs.leave _)
  | case3 p i rest hfresh entered pending ih =>
    exact ih (hp.enter hfresh) (hs.enter hfresh pending)
  | case4 p i rest _ ih => exact ih hp ⟨hs.nodup, hs.opened⟩

theorem traced_allFields (h : Hierarchy) (m : Marks) : h.Traced m (h.allFields m) := by
  rw [allFields, foldl_drain_enter]
  exact traced_drain (.start h m h.size) (.start _ _)

/-- Every field of a class is one of its own or comes from the class that declares it. -/
theorem hasOrigin_allFields {l : List SchemaField} (hl : (h.allFields m).fields? i = some l)
    (hf : f ∈ l) : h.HasOrigin m (h.allFields m).fields? i f :=
  (h.traced_allFields m).hasOrigin i l hl f hf

end ApiSurface.Project.Hierarchy
