import ApiSurface.Proofs.Project.Origins

/-!
# Fields on any graph of bases

A class that neither lies on a cycle of recognised bases nor has one above it gets its fields from
those of its bases by recursion (`Gets`). The walk over the classes gives it the same ones, whatever
cycles there are elsewhere and wherever the walk enters it (`fields?_allFields_of_gets`): every class
that is open when a class is entered inherits from it, so none of the bases of such a class is still
open when it is left.
-/

namespace ApiSurface.Project.Hierarchy

variable {h : Hierarchy} {m : Marks} {p : Progress} {i b n : Nat} {l l' : List SchemaField}

/-! ### The recursion -/

/-- The class `i` gets the fields `l` from those of its recognised bases and its own. -/
inductive Gets (h : Hierarchy) (m : Marks) : Nat → List SchemaField → Prop
  | merge {i : Nat} {fieldsOf : Nat → List SchemaField} :
      (∀ b ∈ h.recognisedBases m i, Gets h m b (fieldsOf b)) →
        Gets h m i (h.combine m (fun b => some (fieldsOf b)) i)

/-- Of the other classes only the recognised bases count. -/
theorem combine_congr {fieldsOf fieldsOf' : Nat → Option (List SchemaField)}
    (hsame : ∀ b ∈ h.recognisedBases m i, fieldsOf b = fieldsOf' b) :
    h.combine m fieldsOf i = h.combine m fieldsOf' i := by
  rw [combine_eq_foldl, combine_eq_foldl]
  refine congrArg ((h.ownFields i).foldl fun fields f => f.put fields) (List.foldl_ext _ _ _ ?_)
  exact fun fields b hb => by rw [hsame b hb]

theorem Gets.unique (hl : h.Gets m i l) (hl' : h.Gets m i l') : l = l' := by
  induction hl generalizing l' with
  | merge _ ih =>
    cases hl' with
    | merge hbases' => exact combine_congr fun b hb => congrArg some (ih b hb (hbases' b hb))

/-- A class that gets its fields does not inherit from itself. -/
theorem Gets.not_inherits_self (hl : h.Gets m i l) : ¬ h.Inherits m i i := by
  induction hl with
  | merge _ ih =>
    intro hi
    obtain ⟨b, hb, hback⟩ := Relation.TransGen.head'_iff.mp hi
    exact ih b hb (.tail' hback hb)

/-- Where no class is below itself, every class gets its fields. -/
theorem exists_gets (hac : h.Acyclic) (m : Marks) (i : Nat) : ∃ l, h.Gets m i l := by
  induction i using hac.wellFounded.induction with
  | _ i ih =>
    have hbases : ∀ b, ∃ l, b ∈ h.recognisedBases m i → h.Gets m b l := by
      intro b
      by_cases hb : b ∈ h.recognisedBases m i
      · obtain ⟨l, hl⟩ := ih b (hasBase_of_mem_recognisedBases hb)
        exact ⟨l, fun _ => hl⟩
      · exact ⟨[], fun h => absurd h hb⟩
    choose fieldsOf hfields using hbases
    exact ⟨_, .merge hfields⟩

/-! ### One visit -/

/-- What every step preserves: a class that was left has the fields that it gets by recursion. -/
structure Agrees (h : Hierarchy) (m : Marks) (p : Progress) : Prop where
  length_stages : p.stages.length = h.size
  length_fields : p.fields.length = h.size
  fields_of_done : ∀ i l, h.Gets m i l → p.stage? i = some .done → p.fields? i = some l

theorem Agrees.start (h : Hierarchy) (m : Marks) : h.Agrees m (.start h.size) where
  length_stages := List.length_replicate
  length_fields := List.length_replicate
  fields_of_done i l _ hi := by cases Progress.stage?_start hi

theorem Agrees.enter (hp : h.Agrees m p) (hfresh : p.isFresh i) : h.Agrees m (p.enter i) where
  length_stages := List.length_set.trans hp.length_stages
  length_fields := hp.length_fields
  fields_of_done j l hl hj := by
    by_cases hij : i = j
    · subst hij
      have hi := (List.getElem?_eq_some_iff.mp (Progress.isFresh_iff.mp hfresh)).1
      rw [Progress.stage?_enter_self hi] at hj
      cases hj
    · rw [Progress.stage?_enter_of_ne hij] at hj
      exact hp.fields_of_done j l hl hj

theorem Agrees.leave (hp : h.Agrees m p) (hi : i < h.size) {new : List SchemaField}
    (hnew : ∀ l, h.Gets m i l → new = l) : h.Agrees m (p.leave i new) where
  length_stages := List.length_set.trans hp.length_stages
  length_fields := List.length_set.trans hp.length_fields
  fields_of_done j l hl hj := by
    by_cases hij : i = j
    · subst hij
      rw [Progress.fields?_leave_self new (hp.length_fields ▸ hi), hnew l hl]
    · rw [Progress.stage?_leave_of_ne new hij] at hj
      rw [Progress.fields?_leave_of_ne new hij, hp.fields_of_done j l hl hj]

/-- Every open class inherits from the class `i`. -/
def OpenBelow (h : Hierarchy) (m : Marks) (p : Progress) (i : Nat) : Prop :=
  ∀ o, p.stage? o = some .opened → h.Inherits m o i

theorem OpenBelow.of_advances {q : Progress} (hp : h.OpenBelow m p i) (hadv : p.Advances q) :
    h.OpenBelow m q i := fun o ho => hp o (hadv.of_opened o ho)

/-- The classes that are open once a class is entered inherit from its bases. -/
theorem OpenBelow.enter (hp : h.OpenBelow m p i) (hb : b ∈ h.recognisedBases m i) :
    h.OpenBelow m (p.enter i) b := by
  intro o ho
  by_cases hio : i = o
  · exact hio ▸ .single hb
  · rw [Progress.stage?_enter_of_ne hio] at ho
    exact (hp o ho).tail hb

/-- A class does not become fresh again. -/
theorem Progress.Advances.not_isFresh {q : Progress} (hadv : p.Advances q) (hi : ¬ p.isFresh i) :
    ¬ q.isFresh i := by
  rw [isFresh_iff] at hi ⊢
  rwa [hadv.of_entered i hi]

/-- Entering a class leaves it again, from wherever fewer than `n` classes are fresh. -/
def Walks (h : Hierarchy) (m : Marks) (n : Nat) : Prop :=
  ∀ p i, p.freshCount < n → h.Agrees m p → h.OpenBelow m p i →
    h.Agrees m (h.drain m p [.enter i]) ∧ p.Advances (h.drain m p [.enter i]) ∧
      ¬ (h.drain m p [.enter i]).isFresh i

theorem freshCount_drain_le (h : Hierarchy) (m : Marks) (p : Progress) (tasks : List Task) :
    (h.drain m p tasks).freshCount ≤ p.freshCount := by
  fun_induction drain h m p tasks with
  | case1 p => exact Nat.le_refl _
  | case2 p i rest ih => exact ih.trans (p.freshCount_leave_le i _)
  | case3 p i rest hfresh entered pending ih =>
    exact ih.trans (Nat.le_of_lt (Progress.freshCount_enter_lt hfresh))
  | case4 p i rest _ ih => exact ih

/-- Classes that are entered one after the other. -/
theorem Walks.list (hw : h.Walks m n) {l : List Nat} (hlt : p.freshCount < n)
    (hp : h.Agrees m p) (hopen : ∀ b ∈ l, h.OpenBelow m p b) :
    h.Agrees m (h.drain m p (l.map .enter)) ∧ p.Advances (h.drain m p (l.map .enter)) ∧
      ∀ b ∈ l, ¬ (h.drain m p (l.map .enter)).isFresh b := by
  induction l generalizing p with
  | nil =>
    rw [List.map_nil, drain_nil]
    exact ⟨hp, .refl p, by simp⟩
  | cons b l ih =>
    obtain ⟨hagrees, hadv, hleft⟩ := hw p b hlt hp (hopen b List.mem_cons_self)
    obtain ⟨hagrees', hadv', hleft'⟩ := ih ((h.freshCount_drain_le m p _).trans_lt hlt) hagrees
      fun c hc => (hopen c (List.mem_cons_of_mem b hc)).of_advances hadv
    have hsplit : h.drain m p ((b :: l).map .enter)
        = h.drain m (h.drain m p [.enter b]) (l.map .enter) := by
      rw [← drain_append]
      rfl
    rw [hsplit]
    refine ⟨hagrees', hadv.trans hadv', ?_⟩
    rintro c (_ | ⟨_, hc⟩)
    · exact hadv'.not_isFresh hleft
    · exact hleft' c hc

/-- A class that is neither fresh nor open was left. -/
theorem Agrees.done (hp : h.Agrees m p) (hi : i < h.size) (hfresh : ¬ p.isFresh i)
    (hopen : p.stage? i ≠ some .opened) : p.stage? i = some .done := by
  have hlt : i < p.stages.length := hp.length_stages ▸ hi
  rw [Progress.isFresh_iff] at hfresh
  cases hst : p.stage? i with
  | none => exact absurd (List.getElem?_eq_none_iff.mp hst) (Nat.not_le_of_lt hlt)
  | some s =>
    cases s with
    | fresh => exact absurd hst hfresh
    | opened => exact absurd hst hopen
    | done => rfl

/-- **One visit.** The bases of a class that gets its fields are left before it is: an open one
would inherit from itself. -/
theorem Walks.succ (hm : m.kinds.length = h.size) (hw : h.Walks m n) : h.Walks m (n + 1) := by
  intro p i hlt hp hopen
  by_cases hfresh : p.isFresh i
  · let pending := (h.recognisedBases m i).filter (p.enter i).isFresh
    have hpending : ∀ b ∈ pending, b ∈ h.recognisedBases m i := fun _ => List.mem_of_mem_filter
    have hlt' : (p.enter i).freshCount < n :=
      Nat.lt_of_lt_of_le (Progress.freshCount_enter_lt hfresh) (Nat.le_of_lt_succ hlt)
    obtain ⟨hagrees, hadv, hleft⟩ := hw.list (l := pending) hlt' (hp.enter hfresh)
      fun b hb => hopen.enter (hpending b hb)
    set q := h.drain m (p.enter i) (pending.map .enter)
    have hbase : ∀ b ∈ h.recognisedBases m i, ¬ q.isFresh b := by
      intro b hb
      by_cases hbp : (p.enter i).isFresh b
      · exact hleft b (List.mem_filter.mpr ⟨hb, hbp⟩)
      · exact hadv.not_isFresh hbp
    have hi : i < h.size := by
      have hlen := (List.getElem?_eq_some_iff.mp (Progress.isFresh_iff.mp hfresh)).1
      exact hp.length_stages ▸ hlen
    have hnew : ∀ l, h.Gets m i l → h.combine m q.fields? i = l := by
      intro l hl
      have hself := hl.not_inherits_self
      cases hl with
      | merge hfields =>
        refine combine_congr fun b hb => ?_
        have hopened : q.stage? b ≠ some .opened := fun ho =>
          (hfields b hb).not_inherits_self (hopen.enter hb b (hadv.of_opened b ho))
        exact hagrees.fields_of_done b _ (hfields b hb) <| hagrees.done
          (lt_size_of_isSome_kind? hm (List.mem_filter.mp hb).2) (hbase b hb) hopened
    have hlen : i < q.stages.length := hagrees.length_stages ▸ hi
    rw [drain_enter_of_fresh [] hfresh, drain_append, drain_leave, drain_nil]
    refine ⟨hagrees.leave hi hnew, hadv.enter_leave hfresh hlen, ?_⟩
    rw [Progress.isFresh_iff, Progress.stage?_leave_self _ hlen]
    simp
  · rw [drain_enter_of_entered [] hfresh, drain_nil]
    exact ⟨hp, .refl p, hfresh⟩

theorem walks (hm : m.kinds.length = h.size) (n : Nat) : h.Walks m n := by
  induction n with
  | zero => exact fun p i hlt => absurd hlt (Nat.not_lt_zero _)
  | succ n ih => exact ih.succ hm

/-- Once the walk is over, every recognised class was left, on any graph. -/
theorem agrees_allFields (hm : m.kinds.length = h.size) :
    h.Agrees m (h.allFields m) ∧
      ∀ i, (m.kind? i).isSome → (h.allFields m).stage? i = some .done := by
  have hopen : ∀ j, h.OpenBelow m (.start h.size) j := fun j o ho => by
    cases Progress.stage?_start ho
  obtain ⟨hagrees, hadv, hleft⟩ := (walks hm _).list (l := h.recognised m) (Nat.lt_succ_self _)
    (.start h m) fun j _ => hopen j
  rw [allFields, foldl_drain_enter]
  refine ⟨hagrees, fun i hi => ?_⟩
  have hlt := lt_size_of_isSome_kind? hm hi
  have hmem : i ∈ h.recognised m := List.mem_filter.mpr ⟨List.mem_range.mpr hlt, hi⟩
  refine hagrees.done hlt (hleft i hmem) fun ho => ?_
  cases Progress.stage?_start (hadv.of_opened i ho)

/-- **The walk agrees with the recursion** on every recognised class that gets its fields. -/
theorem fields?_allFields_of_gets (hm : m.kinds.length = h.size) (hi : (m.kind? i).isSome)
    (hl : h.Gets m i l) : (h.allFields m).fields? i = some l :=
  (agrees_allFields hm).1.fields_of_done i l hl ((agrees_allFields hm).2 i hi)

end ApiSurface.Project.Hierarchy
