import ApiSurface.Proofs.Project.Declarations
import ApiSurface.Proofs.Project.Recognition

/-!
# Inheritance by a stack

The walk over the classes keeps a stack of classes to enter and to leave. Working off a stack in two
parts is the same as working it off at once (`drain_append`), so a class on the top is visited
completely before the rest of the stack is looked at. On a graph without cycles this gives the
recursion its cases: when a class is left, all its recognised bases were left before, because one
that is still open would be above itself.

`Kept` is what every step preserves: a class that was left has the fields of the recursive
definition. `Advances` is what a visit leaves unchanged.
-/

namespace ApiSurface.Project.Hierarchy

variable {h : Hierarchy} {m : Marks} {hac : h.Acyclic} {p : Progress} {i j : Nat}

/-! ### Stages -/

namespace Progress

/-- The stage of a class. -/
def stage? (p : Progress) (i : Nat) : Option Stage := p.stages[i]?

theorem isFresh_iff : p.isFresh i ↔ p.stage? i = some .fresh := beq_iff_eq

theorem stage?_enter_self (hi : i < p.stages.length) : (p.enter i).stage? i = some .opened :=
  List.getElem?_set_self hi

theorem stage?_enter_of_ne (hij : i ≠ j) : (p.enter i).stage? j = p.stage? j :=
  List.getElem?_set_ne hij

theorem stage?_leave_self (l : List SchemaField) (hi : i < p.stages.length) :
    (p.leave i l).stage? i = some .done :=
  List.getElem?_set_self hi

theorem stage?_leave_of_ne (l : List SchemaField) (hij : i ≠ j) :
    (p.leave i l).stage? j = p.stage? j :=
  List.getElem?_set_ne hij

theorem fields?_leave_self (l : List SchemaField) (hi : i < p.fields.length) :
    (p.leave i l).fields? i = some l := by
  rw [fields?, leave, List.getElem?_set_self hi, Option.join_some]

theorem fields?_leave_of_ne (l : List SchemaField) (hij : i ≠ j) :
    (p.leave i l).fields? j = p.fields? j := by
  rw [fields?, leave, List.getElem?_set_ne hij, fields?]

theorem stage?_start {size : Nat} {s : Stage} (hs : (start size).stage? i = some s) :
    s = .fresh := by
  rw [start, stage?, List.getElem?_replicate] at hs
  split at hs
  · exact (Option.some.inj hs).symm
  · cases hs

/-- From `p` to `q` no class was entered twice, and every class that was entered was left again. -/
structure Advances (p q : Progress) : Prop where
  of_entered : ∀ i, p.stage? i ≠ some .fresh → q.stage? i = p.stage? i
  of_opened : ∀ i, q.stage? i = some .opened → p.stage? i = some .opened

theorem Advances.refl (p : Progress) : p.Advances p := ⟨fun _ _ => rfl, fun _ => id⟩

theorem Advances.trans {p q r : Progress} (hpq : p.Advances q) (hqr : q.Advances r) :
    p.Advances r where
  of_entered i hi := by
    have hq := hpq.of_entered i hi
    rw [hqr.of_entered i (hq ▸ hi), hq]
  of_opened i hi := hpq.of_opened i (hqr.of_opened i hi)

theorem Advances.done {p q : Progress} (hpq : p.Advances q) (hi : p.stage? i = some .done) :
    q.stage? i = some .done := by
  rw [hpq.of_entered i (by simp [hi]), hi]

/-- A class that was entered and left again, with other classes in between. -/
theorem Advances.enter_leave {p q : Progress} {l : List SchemaField} (hpq : (p.enter i).Advances q)
    (hfresh : p.isFresh i) (hi : i < q.stages.length) : p.Advances (q.leave i l) where
  of_entered j hj := by
    have hne : i ≠ j := fun heq => hj (heq ▸ isFresh_iff.mp hfresh)
    have hstage := stage?_enter_of_ne (p := p) hne
    rw [stage?_leave_of_ne l hne, hpq.of_entered j (hstage ▸ hj), hstage]
  of_opened j hj := by
    have hne : i ≠ j := by
      rintro rfl
      rw [stage?_leave_self l hi] at hj
      cases hj
    rw [stage?_leave_of_ne l hne] at hj
    exact stage?_enter_of_ne (p := p) hne ▸ hpq.of_opened j hj

end Progress

open Progress (Advances)

/-! ### The stack -/

theorem drain_nil (h : Hierarchy) (m : Marks) (p : Progress) : h.drain m p [] = p := by
  rw [drain]

theorem drain_leave (h : Hierarchy) (m : Marks) (p : Progress) (i : Nat) (rest : List Task) :
    h.drain m p (.leave i :: rest) = h.drain m (p.leave i (h.combine m p.fields? i)) rest := by
  rw [drain]

theorem drain_enter_of_fresh (rest : List Task) (hi : p.isFresh i) :
    h.drain m p (.enter i :: rest) = h.drain m (p.enter i)
      (((h.recognisedBases m i).filter (p.enter i).isFresh).map .enter ++ .leave i :: rest) := by
  rw [drain, if_pos hi]

theorem drain_enter_of_entered (rest : List Task) (hi : ¬ p.isFresh i) :
    h.drain m p (.enter i :: rest) = h.drain m p rest := by
  rw [drain, if_neg hi]

/-- **A stack in two parts.** The upper part is worked off before the lower one is looked at. -/
theorem drain_append (h : Hierarchy) (m : Marks) (p : Progress) (upper lower : List Task) :
    h.drain m p (upper ++ lower) = h.drain m (h.drain m p upper) lower := by
  fun_induction drain h m p upper with
  | case1 p => rfl
  | case2 p i rest ih => rw [List.cons_append, drain_leave, ih]
  | case3 p i rest hi entered pending ih =>
    rw [List.cons_append, drain_enter_of_fresh _ hi, ← ih]
    simp only [List.append_assoc, List.cons_append, pending, entered]
  | case4 p i rest hi ih => rw [List.cons_append, drain_enter_of_entered _ hi, ih]

/-! ### Visits -/

/-- What every step preserves: a class that was left has the fields of the recursive definition. -/
structure Kept (h : Hierarchy) (m : Marks) (hac : h.Acyclic) (p : Progress) : Prop where
  length_stages : p.stages.length = h.size
  length_fields : p.fields.length = h.size
  fields_of_done : ∀ i, p.stage? i = some .done →
    p.fields? i = some ((h.declarations m hac i).map (Declared.shown h i))

theorem Kept.start (h : Hierarchy) (m : Marks) (hac : h.Acyclic) :
    h.Kept m hac (.start h.size) where
  length_stages := List.length_replicate
  length_fields := List.length_replicate
  fields_of_done i hi := by cases Progress.stage?_start hi

theorem Kept.enter (hp : h.Kept m hac p) (hi : i < h.size) : h.Kept m hac (p.enter i) where
  length_stages := List.length_set.trans hp.length_stages
  length_fields := hp.length_fields
  fields_of_done j hj := by
    by_cases hij : i = j
    · subst hij
      rw [Progress.stage?_enter_self (hp.length_stages ▸ hi)] at hj
      cases hj
    · rw [Progress.stage?_enter_of_ne hij] at hj
      exact hp.fields_of_done j hj

theorem Kept.leave (hp : h.Kept m hac p) (hi : i < h.size) {l : List SchemaField}
    (hl : l = (h.declarations m hac i).map (Declared.shown h i)) :
    h.Kept m hac (p.leave i l) where
  length_stages := List.length_set.trans hp.length_stages
  length_fields := List.length_set.trans hp.length_fields
  fields_of_done j hj := by
    by_cases hij : i = j
    · subst hij
      rw [Progress.fields?_leave_self l (hp.length_fields ▸ hi), hl]
    · rw [Progress.stage?_leave_of_ne l hij] at hj
      rw [Progress.fields?_leave_of_ne l hij, hp.fields_of_done j hj]

/-- Entering the class `i` leaves it as well, unless a class that it reaches is open. -/
def Visits (h : Hierarchy) (m : Marks) (hac : h.Acyclic) (i : Nat) : Prop :=
  ∀ p, h.Kept m hac p → (∀ j, h.Reaches i j → p.stage? j ≠ some .opened) →
    h.Kept m hac (h.drain m p [.enter i]) ∧ p.Advances (h.drain m p [.enter i]) ∧
      (h.drain m p [.enter i]).stage? i = some .done

/-- Classes that are entered one after the other. -/
theorem visits_list {l : List Nat} (hl : ∀ b ∈ l, h.Visits m hac b) (hp : h.Kept m hac p)
    (hopen : ∀ b ∈ l, ∀ j, h.Reaches b j → p.stage? j ≠ some .opened) :
    h.Kept m hac (h.drain m p (l.map .enter)) ∧ p.Advances (h.drain m p (l.map .enter)) ∧
      ∀ b ∈ l, (h.drain m p (l.map .enter)).stage? b = some .done := by
  induction l generalizing p with
  | nil =>
    rw [List.map_nil, drain_nil]
    exact ⟨hp, .refl p, by simp⟩
  | cons b l ih =>
    obtain ⟨hkept, hadv, hdone⟩ := hl b List.mem_cons_self p hp (hopen b List.mem_cons_self)
    obtain ⟨hkept', hadv', hdone'⟩ := ih (fun c hc => hl c (List.mem_cons_of_mem b hc)) hkept
      fun c hc j hj hst => hopen c (List.mem_cons_of_mem b hc) j hj (hadv.of_opened j hst)
    have hsplit : h.drain m p ((b :: l).map .enter)
        = h.drain m (h.drain m p [.enter b]) (l.map .enter) := by
      rw [← drain_append]
      rfl
    rw [hsplit]
    refine ⟨hkept', hadv.trans hadv', ?_⟩
    rintro c (_ | ⟨_, hc⟩)
    · exact hadv'.done hdone
    · exact hdone' c hc

/-- A recognised class is one of the classes. -/
theorem lt_size_of_isSome_kind? (hm : m.kinds.length = h.size) (hi : (m.kind? i).isSome) :
    i < h.size := by
  obtain ⟨k, hk⟩ := Option.isSome_iff_exists.mp hi
  exact hm ▸ lt_length_of_kind? hk

theorem Kept.fresh_or_done (hp : h.Kept m hac p) (hi : i < h.size)
    (hopen : p.stage? i ≠ some .opened) : p.isFresh i ∨ p.stage? i = some .done := by
  have hlt : i < p.stages.length := hp.length_stages ▸ hi
  rw [Progress.isFresh_iff]
  cases hst : p.stage? i with
  | none => exact absurd (List.getElem?_eq_none_iff.mp hst) (Nat.not_le_of_lt hlt)
  | some s =>
    cases s with
    | fresh => exact .inl rfl
    | opened => exact absurd hst hopen
    | done => exact .inr rfl

/-- **One visit.** Above a class there is no cycle, so its bases are visited before it is left. -/
theorem visits_of_acyclic (hac : h.Acyclic)
    (hplain : ∀ j, ∀ f ∈ h.ownFields j, f.inheritedFrom = none)
    (hm : m.kinds.length = h.size) (i : Nat) (hi : i < h.size) : h.Visits m hac i := by
  induction i using hac.wellFounded.induction with
  | _ i ih =>
  intro p hp hopen
  rcases hp.fresh_or_done hi (hopen i .refl) with hfresh | hdone
  · have hbases : ∀ b ∈ h.recognisedBases m i, h.HasBase i b ∧ b < h.size := fun b hb =>
      ⟨hasBase_of_mem_recognisedBases hb,
        lt_size_of_isSome_kind? hm (List.mem_filter.mp hb).2⟩
    have hentered := hp.enter hi
    -- no class that a base reaches is open: it was not before, and it is not `i`
    have hopen' : ∀ b ∈ h.recognisedBases m i, ∀ j, h.Reaches b j →
        (p.enter i).stage? j ≠ some .opened := by
      intro b hb j hj
      have hne : i ≠ j := fun heq => hac i (.head' (hbases b hb).1 (heq ▸ hj))
      rw [Progress.stage?_enter_of_ne hne]
      exact hopen j (.head (hbases b hb).1 hj)
    let pending := (h.recognisedBases m i).filter (p.enter i).isFresh
    have hpending : ∀ b ∈ pending, b ∈ h.recognisedBases m i := fun _ => List.mem_of_mem_filter
    obtain ⟨hkept, hadv, hdone⟩ := visits_list (l := pending)
      (fun b hb => ih b (hbases b (hpending b hb)).1 (hbases b (hpending b hb)).2)
      hentered (fun b hb => hopen' b (hpending b hb))
    set q := h.drain m (p.enter i) (pending.map .enter)
    have hall : ∀ b ∈ h.recognisedBases m i, q.stage? b = some .done := by
      intro b hb
      rcases hentered.fresh_or_done (hbases b hb).2 (hopen' b hb b .refl) with hst | hst
      · exact hdone b (List.mem_filter.mpr ⟨hb, hst⟩)
      · exact hadv.done hst
    have hfields := combine_eq_map_shown hac hplain fun b hb =>
      hkept.fields_of_done b (hall b hb)
    have hlt : i < q.stages.length := hkept.length_stages ▸ hi
    rw [drain_enter_of_fresh [] hfresh, drain_append, drain_leave, drain_nil]
    exact ⟨hkept.leave hi hfields, hadv.enter_leave hfresh hlt, Progress.stage?_leave_self _ hlt⟩
  · have hnot : ¬ p.isFresh i := by
      rw [Progress.isFresh_iff, hdone]
      simp
    rw [drain_enter_of_entered [] hnot, drain_nil]
    exact ⟨hp, .refl p, hdone⟩

/-! ### The whole walk -/

/-- Entering classes in turn, each with a stack of its own, is entering them from one stack. -/
theorem foldl_drain_enter (h : Hierarchy) (m : Marks) (p : Progress) (l : List Nat) :
    l.foldl (fun p i => h.drain m p [.enter i]) p = h.drain m p (l.map .enter) := by
  induction l generalizing p with
  | nil => rw [List.map_nil, drain_nil, List.foldl_nil]
  | cons i l ih =>
    rw [List.foldl_cons, ih, ← drain_append]
    rfl

/-- **The walk agrees with the recursion.** Where no class is below itself and declared fields carry
no label, every recognised class gets the fields that it shows for its declarations. -/
theorem fields?_allFields (h : Hierarchy) (hac : h.Acyclic)
    (hplain : ∀ c ∈ h.classes, ∀ f ∈ c.decl.fields, f.inheritedFrom = none) (i : Nat)
    (hi : (h.marks.kind? i).isSome) :
    (h.allFields h.marks).fields? i
      = some ((h.declarations h.marks hac i).map (Declared.shown h i)) := by
  have hm : h.marks.kinds.length = h.size := (fits_marks h).length_kinds
  have hplain' : ∀ j, ∀ f ∈ h.ownFields j, f.inheritedFrom = none := by
    intro j f hf
    cases hc : h.classes[j]? with
    | none => simp [ownFields, hc] at hf
    | some c =>
      rw [ownFields, hc] at hf
      exact hplain c (List.mem_of_getElem? hc) f hf
  have hopen : ∀ j, (Progress.start h.size).stage? j ≠ some .opened := fun j hj => by
    cases Progress.stage?_start hj
  have hvisits : ∀ j ∈ h.recognised h.marks, h.Visits h.marks hac j := fun j hj =>
    visits_of_acyclic hac hplain' hm j (List.mem_range.mp (List.mem_of_mem_filter hj))
  obtain ⟨hkept, -, hdone⟩ := visits_list hvisits (Kept.start h h.marks hac) fun _ _ j _ => hopen j
  have hmem : i ∈ h.recognised h.marks :=
    List.mem_filter.mpr ⟨List.mem_range.mpr (lt_size_of_isSome_kind? hm hi), hi⟩
  rw [allFields, foldl_drain_enter]
  exact hkept.fields_of_done i (hdone i hmem)

/-- A class that declares fields of some names. -/
private def entry (name : String) (fields : List String) (kind : Option SchemaKind) :
    ClassEntry where
  file := "shapes.py"
  module := none
  decl := { (default : ClassDecl) with
    name
    directKind := kind
    fields := fields.map fun f => { (default : SchemaField) with name := f } }

/-- A class above two others, which are both bases of a fourth one. -/
def diamond : Hierarchy where
  classes := [entry "Base" ["id", "at"] (some .pydantic), entry "Left" ["at", "l"] none,
    entry "Right" ["r", "id"] none, entry "Leaf" ["l", "own"] none]
  bases := [[], [0], [0], [2, 1]]
  length_bases := rfl

theorem acyclic_diamond : diamond.Acyclic := by
  refine acyclic_of_base_lt fun i b hb => ?_
  have hlt : ∀ i < 4, ∀ b ∈ diamond.basesOf i, b < i := by decide
  exact hlt i hb.lt_size b hb

/-- The leaf of the diamond meets every field of the base twice. -/
theorem fields?_allFields_diamond :
    (∀ c ∈ diamond.classes, ∀ f ∈ c.decl.fields, f.inheritedFrom = none) ∧
    (diamond.marks.kind? 3).isSome ∧
    (diamond.allFields diamond.marks).fields? 3 = some
      ((diamond.declarations diamond.marks acyclic_diamond 3).map (Declared.shown diamond 3)) := by
  have hplain : ∀ c ∈ diamond.classes, ∀ f ∈ c.decl.fields, f.inheritedFrom = none := by decide
  have hkind : (diamond.marks.kind? 3).isSome := by decide
  exact ⟨hplain, hkind, fields?_allFields diamond acyclic_diamond hplain 3 hkind⟩

example : ((diamond.allFields diamond.marks).fields? 3).map
      (·.map fun f => (f.name, f.inheritedFrom))
    = some [("id", some "Right"), ("at", some "Base"), ("r", some "Right"), ("l", none),
      ("own", none)] := by
  cbv

end ApiSurface.Project.Hierarchy
