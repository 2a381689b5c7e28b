import ApiSurface.Proofs.Project.BaseGraph

/-!
# Inheritance by recursion

Where no class is below itself, the fields of a class are defined by recursion to its bases:
`Hierarchy.declarations` lists them together with the classes that declare them. A class **shows** a
declaration of its own as it is, and any other one with the name of the class that declares it.

One step of the walk over the classes agrees with one step of the recursion: from the shown
declarations of the bases `Hierarchy.combine` makes those of the class (`combine_eq_map_shown`).
-/

namespace ApiSurface.Project.Hierarchy

variable {h : Hierarchy} {m : Marks} {i b : Nat}

/-- A fold over lists whose steps add only what `q` allows. -/
theorem mem_or_exists_of_mem_foldl {α β : Type} {g : List α → β → List α}
    {q : β → α → Prop} (hstep : ∀ l b x, x ∈ g l b → x ∈ l ∨ q b x) {bs : List β} {l : List α}
    {x : α} (hx : x ∈ bs.foldl g l) : x ∈ l ∨ ∃ b ∈ bs, q b x := by
  have hfold : ∀ y ∈ bs.foldl g l, y ∈ l ∨ ∃ b ∈ bs, q b y := by
    refine List.foldlRecOn (motive := fun l' => ∀ y ∈ l', y ∈ l ∨ ∃ b ∈ bs, q b y) bs g
      (fun y hy => .inl hy) fun l' ih b hb y hy => ?_
    rcases hstep l' b y hy with hy | hq
    · exact ih y hy
    · exact .inr ⟨b, hb, hq⟩
  exact hfold x hx

/-- A field with the class that declares it. -/
structure Declared where
  origin : Nat
  field : SchemaField

namespace Declared

/-- Put a declaration in the place of the one with its name, or else at the end. -/
def put (d : Declared) : List Declared → List Declared
  | [] => [d]
  | e :: r => if e.field.name = d.field.name then d :: r else e :: d.put r

/-- Add a declaration unless there is one of its name. -/
def offer (l : List Declared) (d : Declared) : List Declared :=
  if l.any fun e => e.field.name == d.field.name then l else l ++ [d]

/-- The field that class `i` shows for a declaration. -/
def shown (h : Hierarchy) (i : Nat) (d : Declared) : SchemaField :=
  if d.origin = i then d.field
  else { d.field with inheritedFrom := h.classes[d.origin]?.map (·.decl.name) }

theorem name_shown (h : Hierarchy) (i : Nat) (d : Declared) :
    (d.shown h i).name = d.field.name := by
  unfold shown
  split <;> rfl

theorem mem_offer {l : List Declared} {d e : Declared} (he : e ∈ offer l d) : e ∈ l ∨ e = d := by
  unfold offer at he
  split at he
  · exact .inl he
  · simpa using he

theorem mem_foldl_offer {l l' : List Declared} {e : Declared} (he : e ∈ l'.foldl offer l) :
    e ∈ l ∨ e ∈ l' := by
  have hstep := mem_or_exists_of_mem_foldl (q := fun d e => e = d) (fun _ _ _ => mem_offer) he
  exact hstep.imp_right fun ⟨d, hd, heq⟩ => heq.symm ▸ hd

theorem mem_put {l : List Declared} {d e : Declared} (he : e ∈ d.put l) : e ∈ l ∨ e = d := by
  induction l with
  | nil => exact .inr (List.mem_singleton.mp he)
  | cons c l ih =>
    rw [put] at he
    split at he
    · exact (List.mem_cons.mp he).symm.imp_left (List.mem_cons_of_mem c)
    · rcases List.mem_cons.mp he with rfl | he
      · exact .inl List.mem_cons_self
      · exact (ih he).imp_left (List.mem_cons_of_mem c)

end Declared

/-! ### The recursion -/

/-- The fields that a class declares itself. -/
def ownFields (h : Hierarchy) (i : Nat) : List SchemaField :=
  (h.classes[i]?.map (·.decl.fields)).getD []

theorem exists_class_of_mem_ownFields {f : SchemaField} (hf : f ∈ h.ownFields i) :
    ∃ c, h.classes[i]? = some c ∧ f ∈ c.decl.fields := by
  cases hc : h.classes[i]? with
  | none => simp [ownFields, hc] at hf
  | some c =>
    rw [ownFields, hc] at hf
    exact ⟨c, rfl, hf⟩

/-- What a class takes over from the lists of its recognised bases. -/
def takenOver (h : Hierarchy) (m : Marks) (fieldsOf : Nat → Option (List SchemaField)) (i : Nat) :
    List SchemaField :=
  (h.recognisedBases m i).foldl (fun fields b =>
    match fieldsOf b with
    | some l => (l.map (h.inherit b)).foldl addInherited fields
    | none => fields) []

/-- The own fields are put into what is taken over. -/
theorem combine_eq_foldl (h : Hierarchy) (m : Marks)
    (fieldsOf : Nat → Option (List SchemaField)) (i : Nat) :
    h.combine m fieldsOf i
      = (h.ownFields i).foldl (fun fields f => f.put fields) (h.takenOver m fieldsOf i) := by
  rw [combine, takenOver, ownFields]
  cases h.classes[i]? <;> rfl

theorem hasBase_of_mem_recognisedBases (hb : b ∈ h.recognisedBases m i) : h.HasBase i b :=
  List.mem_of_mem_filter hb

/-- The declarations that make up the fields of a class: the first of each name among those of its
recognised bases, first to last, and then its own, each in the place of the one with its name or
else behind. -/
def declarations (h : Hierarchy) (m : Marks) (hac : h.Acyclic) (i : Nat) : List Declared :=
  let inherited := (h.recognisedBases m i).attach.foldl
    (fun l b => (h.declarations m hac b.1).foldl Declared.offer l) []
  (h.ownFields i).foldl (fun l f => Declared.put ⟨i, f⟩ l) inherited
termination_by hac.wellFounded.wrap i
decreasing_by exact hasBase_of_mem_recognisedBases b.2

/-- What a class takes over from its recognised bases. -/
def inheritedDeclarations (h : Hierarchy) (m : Marks) (hac : h.Acyclic) (i : Nat) :
    List Declared :=
  (h.recognisedBases m i).foldl (fun l b => (h.declarations m hac b).foldl Declared.offer l) []

theorem declarations_eq (h : Hierarchy) (m : Marks) (hac : h.Acyclic) (i : Nat) :
    h.declarations m hac i = (h.ownFields i).foldl (fun l f => Declared.put ⟨i, f⟩ l)
      (h.inheritedDeclarations m hac i) := by
  rw [declarations, inheritedDeclarations]
  simp

theorem exists_base_of_mem_inheritedDeclarations {hac : h.Acyclic} {d : Declared}
    (hd : d ∈ h.inheritedDeclarations m hac i) :
    ∃ b ∈ h.recognisedBases m i, d ∈ h.declarations m hac b := by
  have hstep := mem_or_exists_of_mem_foldl (q := fun b d => d ∈ h.declarations m hac b)
    (fun _ _ _ => Declared.mem_foldl_offer) hd
  exact hstep.resolve_left List.not_mem_nil

/-- A declaration is an own one or comes from a recognised base. -/
theorem mem_declarations {hac : h.Acyclic} {d : Declared} (hd : d ∈ h.declarations m hac i) :
    (∃ f ∈ h.ownFields i, d = ⟨i, f⟩) ∨
      ∃ b ∈ h.recognisedBases m i, d ∈ h.declarations m hac b := by
  rw [declarations_eq] at hd
  have hstep := mem_or_exists_of_mem_foldl (q := fun f d => d = ⟨i, f⟩)
    (fun _ _ _ => Declared.mem_put) hd
  exact hstep.symm.imp_right exists_base_of_mem_inheritedDeclarations

/-- The class that declares a field is reached and lists the field. -/
theorem origin_of_mem_declarations {hac : h.Acyclic} {d : Declared}
    (hd : d ∈ h.declarations m hac i) : h.Reaches i d.origin ∧ d.field ∈ h.ownFields d.origin := by
  induction i using hac.wellFounded.induction with
  | _ i ih =>
    rcases mem_declarations hd with ⟨f, hf, rfl⟩ | ⟨b, hb, hd⟩
    · exact ⟨.refl, hf⟩
    · have hbase := hasBase_of_mem_recognisedBases hb
      obtain ⟨hreach, hfield⟩ := ih b hbase hd
      exact ⟨.head hbase hreach, hfield⟩

/-! ### What classes show -/

/-- No class is above itself, so a class shows what it takes over with a label. -/
theorem ne_of_mem_declarations_of_hasBase {hac : h.Acyclic} {d : Declared} (hb : h.HasBase i b)
    (hd : d ∈ h.declarations m hac b) : d.origin ≠ i := fun heq =>
  hac i (.head' hb (heq ▸ (origin_of_mem_declarations hd).1))

/-- **Labels survive.** Where declared fields carry no label, a class that inherits what a base
shows shows the declaration itself. -/
theorem inherit_shown {hac : h.Acyclic} {d : Declared}
    (hplain : ∀ j, ∀ f ∈ h.ownFields j, f.inheritedFrom = none) (hb : h.HasBase i b)
    (hd : d ∈ h.declarations m hac b) : h.inherit b (d.shown h b) = d.shown h i := by
  have hne := ne_of_mem_declarations_of_hasBase hb hd
  have hfield := (origin_of_mem_declarations hd).2
  have hlabel : d.field.inheritedFrom = none := hplain d.origin d.field hfield
  obtain ⟨c, hc⟩ : ∃ c, h.classes[d.origin]? = some c := by
    cases hc : h.classes[d.origin]? with
    | none => simp [ownFields, hc] at hfield
    | some c => exact ⟨c, rfl⟩
  -- what the base declares gets its label here, and anything else has it already
  by_cases horigin : d.origin = b
  · subst horigin
    simp [inherit, Declared.shown, hne, hlabel]
  · simp [inherit, Declared.shown, hne, horigin, hc]

/-- Showing commutes with adding fields of new names. -/
theorem addInherited_map_shown (h : Hierarchy) (i : Nat) (l : List Declared) (d : Declared) :
    addInherited (l.map (Declared.shown h i)) (d.shown h i)
      = (Declared.offer l d).map (Declared.shown h i) := by
  have hany : (l.map (Declared.shown h i)).any (fun g => g.name == (d.shown h i).name)
      = l.any fun e => e.field.name == d.field.name := by
    simp only [List.any_map, Function.comp_def, Declared.name_shown]
  rw [addInherited, hany, Declared.offer]
  split <;> simp

/-- Showing commutes with putting an own field in its place. -/
theorem put_map_shown (h : Hierarchy) (i : Nat) (f : SchemaField) (l : List Declared) :
    f.put (l.map (Declared.shown h i)) = (Declared.put ⟨i, f⟩ l).map (Declared.shown h i) := by
  have hown : Declared.shown h i ⟨i, f⟩ = f := if_pos rfl
  induction l with
  | nil => simp [SchemaField.put, Declared.put, hown]
  | cons e l ih =>
    rw [List.map_cons, SchemaField.put, Declared.put, Declared.name_shown]
    split
    · rw [List.map_cons, hown]
    · rw [List.map_cons, ih]

/-- What `combine` makes of the bases, first to last. -/
theorem foldl_bases_map_shown {hac : h.Acyclic} {fieldsOf : Nat → Option (List SchemaField)}
    (hplain : ∀ j, ∀ f ∈ h.ownFields j, f.inheritedFrom = none) (bs : List Nat)
    (hbs : ∀ b ∈ bs, h.HasBase i b ∧
      fieldsOf b = some ((h.declarations m hac b).map (Declared.shown h b))) (l : List Declared) :
    bs.foldl (fun fields b =>
      match fieldsOf b with
      | some l => (l.map (h.inherit b)).foldl addInherited fields
      | none => fields) (l.map (Declared.shown h i))
    = (bs.foldl (fun l b => (h.declarations m hac b).foldl Declared.offer l) l).map
        (Declared.shown h i) := by
  induction bs generalizing l with
  | nil => rfl
  | cons b bs ih =>
    obtain ⟨hbase, hfields⟩ := hbs b List.mem_cons_self
    have hlabels : ((h.declarations m hac b).map (Declared.shown h b)).map (h.inherit b)
        = (h.declarations m hac b).map (Declared.shown h i) := by
      rw [List.map_map]
      exact List.map_congr_left fun d hd => inherit_shown hplain hbase hd
    have hadd : ((h.declarations m hac b).map (Declared.shown h i)).foldl addInherited
          (l.map (Declared.shown h i))
        = ((h.declarations m hac b).foldl Declared.offer l).map (Declared.shown h i) := by
      rw [List.foldl_map]
      exact List.foldl_hom _ (addInherited_map_shown h i)
    rw [List.foldl_cons, List.foldl_cons, hfields]
    simp only [hlabels, hadd]
    exact ih (fun c hc => hbs c (List.mem_cons_of_mem b hc)) _

/-- **One step of the recursion.** From the shown declarations of the recognised bases `combine`
makes those of the class. -/
theorem combine_eq_map_shown (hac : h.Acyclic) {fieldsOf : Nat → Option (List SchemaField)}
    (hplain : ∀ j, ∀ f ∈ h.ownFields j, f.inheritedFrom = none)
    (hbases : ∀ b ∈ h.recognisedBases m i,
      fieldsOf b = some ((h.declarations m hac b).map (Declared.shown h b))) :
    h.combine m fieldsOf i = (h.declarations m hac i).map (Declared.shown h i) := by
  have hinherited := foldl_bases_map_shown hplain (h.recognisedBases m i)
    (fun b hb => ⟨hasBase_of_mem_recognisedBases hb, hbases b hb⟩) []
  have hown : ∀ l : List Declared,
      (h.ownFields i).foldl (fun fields f => f.put fields) (l.map (Declared.shown h i))
        = ((h.ownFields i).foldl (fun l f => Declared.put ⟨i, f⟩ l) l).map (Declared.shown h i) :=
    fun l => List.foldl_hom _ fun l f => put_map_shown h i f l
  rw [List.map_nil] at hinherited
  rw [declarations_eq, ← hown, inheritedDeclarations, ← hinherited, combine_eq_foldl, takenOver]

end ApiSurface.Project.Hierarchy
