import ApiSurface.Proofs.Project.BaseGraph

/-!
# Recognition as a closure

The sweeps of `Hierarchy.marks` compute what is reached over base links: a class gets a kind when it
reaches a class that shows one by itself, and it is an enumeration when it reaches one
(`marks_closure`). Cycles do not matter.

* **Termination.** An update that changes anything leaves fewer classes unmarked
  (`markOne_eq_or_unmarked_lt`), so a sweep either changes nothing or makes progress, and the loop
  stops by itself (`settles_marks`).
* **Soundness.** Having a kind and being an enumeration are marks that `Spreads`: one update passes
  them on from the bases of one class. So every mark is backed by a class that is reached, in the
  middle of a sweep as well. Which kind a class has is `Justified` throughout in the same way.
* **Completeness.** Where a sweep changes nothing, no single update does, and marks spread along
  every path of base links.
-/

namespace ApiSurface.Project.Hierarchy

variable {h : Hierarchy} {m : Marks} {i j : Nat}

/-! ### What classes show by themselves -/

/-- The kind that a class shows by itself. -/
def directKind? (h : Hierarchy) (i : Nat) : Option SchemaKind :=
  h.classes[i]?.bind (·.decl.directKind)

/-- Whether a class is declared as an enumeration. -/
def declaresEnum (h : Hierarchy) (i : Nat) : Bool := h.classes[i]?.any (·.decl.isEnum)

theorem kind?_directMarks (h : Hierarchy) (i : Nat) : h.directMarks.kind? i = h.directKind? i := by
  cases hc : h.classes[i]? <;> simp [Marks.kind?, directMarks, directKind?, hc]

theorem isEnum_directMarks (h : Hierarchy) (i : Nat) :
    h.directMarks.isEnum i = h.declaresEnum i := by
  cases hc : h.classes[i]? <;> simp [Marks.isEnum, directMarks, declaresEnum, hc]

/-! ### One update -/

/-- There is a mark of either sort for each class. -/
structure Fits (h : Hierarchy) (m : Marks) : Prop where
  length_kinds : m.kinds.length = h.size
  length_enums : m.enums.length = h.size

theorem Fits.directMarks (h : Hierarchy) : h.Fits h.directMarks :=
  ⟨List.length_map _, List.length_map _⟩

theorem Fits.markOne (hm : h.Fits m) (i : Nat) : h.Fits (h.markOne m i) :=
  ⟨List.length_set.trans hm.length_kinds, List.length_set.trans hm.length_enums⟩

theorem kind?_markOne (hm : h.Fits m) (hi : i < h.size) (j : Nat) :
    (h.markOne m i).kind? j
      = if i = j then (m.kind? i).or ((h.basesOf i).findSome? m.kind?) else m.kind? j := by
  rw [← hm.length_kinds] at hi
  by_cases hij : i = j
  · subst hij
    simp [Marks.kind?, Hierarchy.markOne, hi]
  · simp [Marks.kind?, Hierarchy.markOne, hij]

theorem isEnum_markOne (hm : h.Fits m) (hi : i < h.size) (j : Nat) :
    (h.markOne m i).isEnum j
      = if i = j then m.isEnum i || (h.basesOf i).any m.isEnum else m.isEnum j := by
  rw [← hm.length_enums] at hi
  by_cases hij : i = j
  · subst hij
    simp [Marks.isEnum, Hierarchy.markOne, hi]
  · simp [Marks.isEnum, Hierarchy.markOne, hij]

theorem lt_length_of_kind? {k : SchemaKind} (hk : m.kind? i = some k) : i < m.kinds.length := by
  by_contra hi
  simp [Marks.kind?, List.getElem?_eq_none (Nat.le_of_not_lt hi)] at hk

/-- A kind that is known stays, whichever class is updated. -/
theorem kind?_markOne_of_some {k : SchemaKind} (j : Nat) (hk : m.kind? i = some k) :
    (h.markOne m j).kind? i = some k := by
  by_cases hij : j = i
  · subst hij
    have hi := lt_length_of_kind? hk
    simp only [Marks.kind?, markOne, List.getElem?_set_self hi] at hk ⊢
    simp [hk]
  · rw [← hk]
    simp [Marks.kind?, markOne, hij]

/-- A class that is given a kind has it from one of its bases. -/
theorem exists_base_of_kind?_markOne {k : SchemaKind} (hm : h.Fits m) (hi : i < h.size)
    (hnone : m.kind? j = none) (hk : (h.markOne m i).kind? j = some k) :
    ∃ b ∈ h.basesOf j, m.kind? b = some k := by
  rw [kind?_markOne hm hi] at hk
  split at hk
  case isTrue hij =>
    subst hij
    rw [hnone, Option.none_or] at hk
    exact List.exists_of_findSome?_eq_some hk
  case isFalse => rw [hnone] at hk; cases hk

/-! ### A whole run -/

/-- What the marks of the classes themselves have and every update keeps, the last marks have. -/
theorem marks_induction {P : Marks → Prop} (hdirect : P h.directMarks)
    (hstep : ∀ m i, h.Fits m → i < h.size → P m → P (h.markOne m i)) :
    h.Fits h.marks ∧ P h.marks := by
  have hsweep : ∀ m, h.Fits m ∧ P m → h.Fits (h.sweep m) ∧ P (h.sweep m) := fun m hm =>
    List.foldlRecOn (motive := fun m => h.Fits m ∧ P m) (List.range h.size) h.markOne hm
      fun m ⟨hfits, hp⟩ i hi => ⟨hfits.markOne i, hstep m i hfits (List.mem_range.mp hi) hp⟩
  have hsettle : ∀ fuel m, h.Fits m ∧ P m → h.Fits (h.settle fuel m) ∧ P (h.settle fuel m) := by
    intro fuel
    induction fuel with
    | zero => exact fun m hm => hm
    | succ fuel ih =>
      intro m hm
      rw [settle]
      split
      · exact hm
      · exact ih _ (hsweep m hm)
  exact hsettle _ _ ⟨.directMarks h, hdirect⟩

theorem fits_marks (h : Hierarchy) : h.Fits h.marks :=
  (marks_induction (P := fun _ => True) trivial fun _ _ _ _ _ => trivial).1

/-- A class that shows a kind by itself has it, and any other kind is the one of a base. -/
structure Justified (h : Hierarchy) (m : Marks) : Prop where
  of_direct : ∀ i k, h.directKind? i = some k → m.kind? i = some k
  of_base : ∀ i k, h.directKind? i = none → m.kind? i = some k →
    ∃ b ∈ h.basesOf i, m.kind? b = some k

theorem Justified.directMarks (h : Hierarchy) : h.Justified h.directMarks where
  of_direct i _ hk := (kind?_directMarks h i).trans hk
  of_base i k hnone hk := by
    rw [kind?_directMarks, hnone] at hk
    cases hk

theorem Justified.markOne (hj : h.Justified m) (hm : h.Fits m) (hi : i < h.size) :
    h.Justified (h.markOne m i) where
  of_direct j k hk := kind?_markOne_of_some i (hj.of_direct j k hk)
  of_base j k hnone hk := by
    -- the base had its kind before the update, and so it still has it
    obtain ⟨b, hb, hbk⟩ : ∃ b ∈ h.basesOf j, m.kind? b = some k := by
      cases hkind : m.kind? j with
      | none => exact exists_base_of_kind?_markOne hm hi hkind hk
      | some k' =>
        obtain rfl : k' = k := Option.some.inj ((kind?_markOne_of_some i hkind).symm.trans hk)
        exact hj.of_base j k' hnone hkind
    exact ⟨b, hb, kind?_markOne_of_some i hbk⟩

theorem justified_marks (h : Hierarchy) : h.Justified h.marks :=
  (marks_induction (.directMarks h) fun _ _ hm hi hj => hj.markOne hm hi).2

/-! ### Termination -/

/-- The number of marks that are missing. -/
def Marks.unmarked (m : Marks) : Nat := m.kinds.count none + m.enums.count false

/-- Replacing the value at a place either changes nothing or leaves fewer copies of `x`, when `x` is
the only value that is replaced. -/
private theorem set_eq_or_count_lt {α : Type} [BEq α] [LawfulBEq α] {l : List α} {i : Nat}
    {a x : α} (hkeep : ∀ y, l[i]? = some y → y ≠ x → a = y) :
    l.set i a = l ∨ (l.set i a).count x < l.count x := by
  by_cases hi : i < l.length
  · have hget := List.getElem?_eq_getElem hi
    by_cases hx : l[i] = x
    · by_cases ha : a = x
      · exact .inl (by rw [ha, ← hx, List.set_getElem_self])
      · have hpos : 0 < l.count x := List.count_pos_iff.mpr (hx ▸ List.getElem_mem hi)
        have hcount : (l.set i a).count x = l.count x - 1 := by simp [List.count_set hi, hx, ha]
        exact .inr (by omega)
    · exact .inl (by rw [hkeep _ hget hx, List.set_getElem_self])
  · exact .inl (List.set_eq_of_length_le (Nat.le_of_not_lt hi))

/-- An update that changes anything leaves fewer marks missing. -/
theorem markOne_eq_or_unmarked_lt (h : Hierarchy) (m : Marks) (i : Nat) :
    h.markOne m i = m ∨ (h.markOne m i).unmarked < m.unmarked := by
  have hkinds := set_eq_or_count_lt (l := m.kinds) (i := i) (x := none)
    (a := m.kind? i <|> (h.basesOf i).findSome? m.kind?) fun y hy hne => by
      obtain ⟨k, rfl⟩ := Option.ne_none_iff_exists'.mp hne
      simp [Marks.kind?, hy]
  have henums := set_eq_or_count_lt (l := m.enums) (i := i) (x := false)
    (a := m.isEnum i || (h.basesOf i).any m.isEnum) fun y hy hne => by
      simp [Marks.isEnum, hy, Bool.eq_true_of_not_eq_false hne]
  simp only [markOne, Marks.unmarked]
  rcases hkinds with hk | hk <;> rcases henums with he | he
  · exact .inl (by rw [hk, he])
  · exact .inr (by rw [hk]; omega)
  · exact .inr (by rw [he]; omega)
  · exact .inr (by omega)

theorem foldl_markOne_eq_or_unmarked_lt (l : List Nat) (m : Marks) :
    (l.foldl h.markOne m = m ∧ ∀ i ∈ l, h.markOne m i = m) ∨
      (l.foldl h.markOne m).unmarked < m.unmarked := by
  induction l generalizing m with
  | nil => exact .inl ⟨rfl, by simp⟩
  | cons i l ih =>
    rw [List.foldl_cons]
    rcases h.markOne_eq_or_unmarked_lt m i with heq | hlt
    · rw [heq]
      refine (ih m).imp_left fun ⟨hfold, hl⟩ => ⟨hfold, ?_⟩
      rintro j (_ | ⟨_, hj⟩)
      · exact heq
      · exact hl j hj
    · -- progress that was made once is not lost
      rcases ih (h.markOne m i) with ⟨hfold, -⟩ | hlt'
      · exact .inr (by rw [hfold]; exact hlt)
      · exact .inr (hlt'.trans hlt)

/-- Where a sweep changes nothing, no update of it does. -/
theorem markOne_eq_of_sweep_eq (hfix : h.sweep m = m) (hi : i < h.size) : h.markOne m i = m := by
  rcases foldl_markOne_eq_or_unmarked_lt (h := h) (List.range h.size) m with ⟨-, hl⟩ | hlt
  · exact hl i (List.mem_range.mpr hi)
  · exact absurd (congrArg Marks.unmarked hfix) hlt.ne

theorem unmarked_sweep_lt (hne : h.sweep m ≠ m) : (h.sweep m).unmarked < m.unmarked :=
  (foldl_markOne_eq_or_unmarked_lt (List.range h.size) m).resolve_left fun ⟨hfold, _⟩ => hne hfold

/-- The loop that sweeps until a sweep changes nothing, started at the first marks, stops at the
second ones. -/
inductive Settles (h : Hierarchy) : Marks → Marks → Prop
  | stop {m : Marks} : h.sweep m = m → Settles h m m
  | again {m last : Marks} : h.sweep m ≠ m → Settles h (h.sweep m) last → Settles h m last

theorem Settles.sweep_eq {last : Marks} (hs : h.Settles m last) : h.sweep last = last := by
  induction hs with
  | stop hfix => exact hfix
  | again _ _ ih => exact ih

/-- More steps than marks are missing are enough. -/
theorem settles_settle {fuel : Nat} (hfuel : m.unmarked < fuel) :
    h.Settles m (h.settle fuel m) := by
  induction fuel generalizing m with
  | zero => omega
  | succ fuel ih =>
    rw [settle]
    by_cases hfix : h.sweep m = m
    · rw [if_pos hfix]
      exact .stop hfix
    · have hlt := unmarked_sweep_lt hfix
      rw [if_neg hfix]
      exact .again hfix (ih (by omega))

/-- **The sweeps end** by themselves. -/
theorem settles_marks (h : Hierarchy) : h.Settles h.directMarks h.marks := by
  have hkinds : h.directMarks.kinds.count none ≤ h.size :=
    (Fits.directMarks h).length_kinds ▸ List.count_le_length
  have henums : h.directMarks.enums.count false ≤ h.size :=
    (Fits.directMarks h).length_enums ▸ List.count_le_length
  exact settles_settle (by rw [Marks.unmarked]; omega)

/-! ### Marks that spread -/

/-- One update passes the mark on from the bases of the class that is updated, and from nowhere
else. -/
def Spreads (h : Hierarchy) (mark : Marks → Nat → Bool) : Prop :=
  ∀ m i j, h.Fits m → i < h.size →
    (mark (h.markOne m i) j ↔ mark m j ∨ i = j ∧ ∃ b, h.HasBase i b ∧ mark m b)

theorem spreads_kind (h : Hierarchy) : h.Spreads fun m i => (m.kind? i).isSome := by
  intro m i j hm hi
  beta_reduce
  rw [kind?_markOne hm hi]
  by_cases hij : i = j
  · simp [hij, HasBase, Option.isSome_or, List.findSome?_isSome_iff]
  · simp [hij]

theorem spreads_enum (h : Hierarchy) : h.Spreads Marks.isEnum := by
  intro m i j hm hi
  rw [isEnum_markOne hm hi]
  by_cases hij : i = j
  · simp [hij, HasBase]
  · simp [hij]

variable {mark : Marks → Nat → Bool}

/-- A mark that spreads is backed by a class that is reached and has it by itself. -/
theorem Spreads.exists_reaches (hs : h.Spreads mark) :
    ∀ i, mark h.marks i → ∃ j, h.Reaches i j ∧ mark h.directMarks j := by
  refine (marks_induction (P := fun m => ∀ i, mark m i → ∃ j, h.Reaches i j ∧
    mark h.directMarks j) (fun i hi => ⟨i, .refl, hi⟩) fun m i hm hi hback j hj => ?_).2
  rcases (hs m i j hm hi).mp hj with hj | ⟨rfl, b, hb, hmark⟩
  · exact hback j hj
  · obtain ⟨c, hreach, hc⟩ := hback b hmark
    exact ⟨c, .head hb hreach, hc⟩

/-- A mark that a class has by itself is not lost. -/
theorem Spreads.of_directMarks (hs : h.Spreads mark) :
    ∀ i, mark h.directMarks i → mark h.marks i := by
  refine (marks_induction (P := fun m => ∀ i, mark h.directMarks i → mark m i)
    (fun _ hi => hi) fun m i hm hi hkeep j hj => ?_).2
  exact (hs m i j hm hi).mpr (.inl (hkeep j hj))

/-- **Marks are reachability.** After the last sweep a class has a mark that spreads when it reaches
a class which has it by itself. -/
theorem Spreads.marks_iff (hs : h.Spreads mark) (i : Nat) :
    mark h.marks i ↔ ∃ j, h.Reaches i j ∧ mark h.directMarks j := by
  refine ⟨hs.exists_reaches i, ?_⟩
  rintro ⟨j, hr, hj⟩
  -- by induction on the path: the last sweep changed nothing, so each link passed the mark on
  induction hr using Relation.ReflTransGen.head_induction_on with
  | refl => exact hs.of_directMarks j hj
  | @head i b hb _ ih =>
    have hfix := markOne_eq_of_sweep_eq (settles_marks h).sweep_eq hb.lt_size
    have hstep := (hs h.marks i i (fits_marks h) hb.lt_size).mpr (.inr ⟨rfl, b, hb, ih⟩)
    rwa [hfix] at hstep

/-- **Recognition is reachability.** The sweeps over any graph of bases end. Then the classes with a
kind are those that reach a class which shows one by itself, and the enumerations are those that
reach one. No update changes a known kind, so a class that shows a kind has that one; any
other class has the kind of one of its bases. -/
theorem marks_closure (h : Hierarchy) :
    h.Settles h.directMarks h.marks ∧
    (∀ i, (h.marks.kind? i).isSome ↔ ∃ j, h.Reaches i j ∧ (h.directKind? j).isSome) ∧
    (∀ i, h.marks.isEnum i ↔ ∃ j, h.Reaches i j ∧ h.declaresEnum j) ∧
    (∀ m i j k, m.kind? j = some k → (h.markOne m i).kind? j = some k) ∧
    (∀ i k, h.directKind? i = some k → h.marks.kind? i = some k) ∧
    (∀ i k, h.directKind? i = none → h.marks.kind? i = some k →
      ∃ b ∈ h.basesOf i, h.marks.kind? b = some k) := by
  have hj := justified_marks h
  refine ⟨settles_marks h, fun i => ?_, fun i => ?_,
    fun m i j k hk => kind?_markOne_of_some i hk, hj.of_direct, hj.of_base⟩
  · simpa only [kind?_directMarks] using (spreads_kind h).marks_iff i
  · simpa only [isEnum_directMarks] using (spreads_enum h).marks_iff i

end ApiSurface.Project.Hierarchy
