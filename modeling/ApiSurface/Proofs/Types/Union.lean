import ApiSurface.Types.Union

/-!
# The laws of unions

Opening a descriptor into what is already open is the same as opening it alone and merging the
results (`Descriptor.openInto_eq_merge`). So a union among the members of a union counts as its
members (`Descriptor.openInto_unionOf`): grouping makes no difference, and neither does where the
absent value stands.

A descriptor that is its own union is **canonical**. Unions are (`Descriptor.isCanonical_unionOf`),
and a canonical descriptor that is opened leaves something behind.

What is opened is no deeper than what it was opened from, so a union is never a generic type around
its own members (`Descriptor.unionOf_ne_generic`).
-/

namespace ApiSurface.Descriptor

variable {d : Descriptor} {l : List Descriptor} {o p : Opened}

/-- The descriptor is one member of a union: no union, no optional and not the absent value. -/
def isMember : Descriptor → Bool
  | union _ => false
  | optional _ => false
  | d => !d.isNone

theorem openInto_of_isMember (h : d.isMember = true) (o : Opened) :
    openInto o d = o.insert d := by
  cases d <;> simp_all [isMember, openInto, isNone]

theorem openInto_none (o : Opened) : openInto o none = o.withNone := by
  rw [none, openInto]
  · simp [isNone]
  · simp
  · simp

theorem openAllInto_eq_foldl (o : Opened) (l : List Descriptor) :
    openAllInto o l = l.foldl openInto o := by
  induction l generalizing o with
  | nil => rfl
  | cons d l ih => rw [openAllInto, ih, List.foldl_cons]

theorem openAllInto_append (o : Opened) (l l' : List Descriptor) :
    openAllInto o (l ++ l') = openAllInto (openAllInto o l) l' := by
  simp only [openAllInto_eq_foldl, List.foldl_append]

theorem openAllInto_of_isMember (h : ∀ d ∈ l, d.isMember = true) (o : Opened) :
    openAllInto o l = l.foldl Opened.insert o := by
  induction l generalizing o with
  | nil => rfl
  | cons d l ih =>
    rw [openAllInto, openInto_of_isMember (h d List.mem_cons_self), List.foldl_cons]
    exact ih (fun c hc => h c (List.mem_cons_of_mem d hc)) _

/-! ### Merging -/

namespace Opened

/-- What is open in the second one added to what is open in the first one. -/
def merge (o p : Opened) : Opened :=
  p.members.foldl insert (if p.hasNone then o.withNone else o)

theorem merge_empty (o : Opened) : o.merge empty = o := rfl

theorem insert_of_mem (h : d ∈ o.members) : o.insert d = o := if_pos h

theorem mem_members_insert (o : Opened) (d : Descriptor) : d ∈ (o.insert d).members := by
  by_cases h : d ∈ o.members <;> simp [insert, h]

theorem subset_members_insert (o : Opened) (d : Descriptor) :
    o.members ⊆ (o.insert d).members := by
  by_cases h : d ∈ o.members <;> simp [insert, h]

theorem withNone_insert (o : Opened) (d : Descriptor) :
    (o.insert d).withNone = o.withNone.insert d := by
  by_cases h : d ∈ o.members <;> simp [insert, withNone, h]

theorem withNone_foldl_insert (o : Opened) (l : List Descriptor) :
    (l.foldl insert o).withNone = l.foldl insert o.withNone := by
  induction l generalizing o with
  | nil => rfl
  | cons d l ih => rw [List.foldl_cons, ih, withNone_insert, List.foldl_cons]

theorem hasNone_foldl_insert (o : Opened) (l : List Descriptor) :
    (l.foldl insert o).hasNone = o.hasNone := by
  induction l generalizing o with
  | nil => rfl
  | cons d l ih =>
    rw [List.foldl_cons, ih]
    by_cases h : d ∈ o.members <;> simp [insert, h]

theorem merge_withNone (o p : Opened) : o.merge p.withNone = (o.merge p).withNone := by
  rw [merge, merge, withNone_foldl_insert]
  cases h : p.hasNone <;> simp [withNone]

theorem mem_members_foldl_insert (h : d ∈ o.members ∨ d ∈ l) :
    d ∈ (l.foldl insert o).members := by
  induction l generalizing o with
  | nil => simpa using h
  | cons c l ih =>
    refine ih ?_
    rcases h with h | h
    · exact .inl (subset_members_insert o c h)
    · rcases List.mem_cons.mp h with rfl | h
      · exact .inl (mem_members_insert o d)
      · exact .inr h

theorem merge_insert (o p : Opened) (d : Descriptor) :
    o.merge (p.insert d) = (o.merge p).insert d := by
  by_cases h : d ∈ p.members
  · have hd : d ∈ (o.merge p).members := mem_members_foldl_insert (.inr h)
    rw [insert_of_mem h, insert_of_mem hd]
  · have hp : p.insert d = ⟨p.members ++ [d], p.hasNone⟩ := if_neg h
    rw [hp, merge, List.foldl_append]
    rfl

/-- What is open stays open when more is merged in. -/
theorem eq_empty_of_merge (h : o.merge p = empty) : o = empty := by
  obtain ⟨members, hasNone⟩ := o
  have hnone : (merge ⟨members, hasNone⟩ p).hasNone = false := by rw [h]; rfl
  have hmembers : ∀ d ∈ members, d ∈ (merge ⟨members, hasNone⟩ p).members := fun d hd =>
    mem_members_foldl_insert (.inl (by split <;> exact hd))
  rw [merge, hasNone_foldl_insert] at hnone
  have hno : hasNone = false := by
    split at hnone
    · simp [withNone] at hnone
    · exact hnone
  have hnil : members = [] := List.eq_nil_iff_forall_not_mem.mpr fun d hd => by
    have := hmembers d hd
    rw [h] at this
    simp [empty] at this
  rw [hno, hnil, empty]

end Opened

mutual
theorem openInto_merge (o p : Opened) : ∀ d, openInto (o.merge p) d = o.merge (openInto p d)
  | union ms => by rw [openInto, openInto, openAllInto_merge]
  | optional d => by rw [openInto, openInto, ← Opened.merge_withNone, openInto_merge]
  | primitive name => by
    simp only [openInto]
    split
    · rw [Opened.merge_withNone]
    · rw [Opened.merge_insert]
  | list _ | dict _ _ | set _ | tuple _ _ | literal _ | callable _ _ _ | generic _ _
  | reference _ | unknown => by
    rw [openInto_of_isMember rfl, openInto_of_isMember rfl, Opened.merge_insert]

theorem openAllInto_merge (o p : Opened) :
    ∀ l, openAllInto (o.merge p) l = o.merge (openAllInto p l)
  | [] => rfl
  | d :: l => by rw [openAllInto, openAllInto, openInto_merge, openAllInto_merge]
end

/-- What is opened into something may be opened alone before. -/
theorem openInto_eq_merge (o : Opened) (d : Descriptor) :
    openInto o d = o.merge (openInto .empty d) := by
  rw [← openInto_merge, Opened.merge_empty]

theorem openAllInto_eq_merge (o : Opened) (l : List Descriptor) :
    openAllInto o l = o.merge (openAllInto .empty l) := by
  rw [← openAllInto_merge, Opened.merge_empty]

theorem openAllInto_withNone (o : Opened) (l : List Descriptor) :
    openAllInto o.withNone l = (openAllInto o l).withNone := by
  rw [openAllInto_eq_merge, openAllInto_eq_merge o, Opened.merge, Opened.merge,
    Opened.withNone_foldl_insert]
  split <;> rfl

/-- The absent value was met, if so. -/
def Opened.withNoneIf (o : Opened) (b : Bool) : Opened := if b then o.withNone else o

theorem openAllInto_withNoneIf (o : Opened) (b : Bool) (l : List Descriptor) :
    openAllInto (o.withNoneIf b) l = (openAllInto o l).withNoneIf b := by
  cases b with
  | false => rfl
  | true => exact openAllInto_withNone o l

theorem Opened.withNoneIf_or (o : Opened) (a b : Bool) :
    o.withNoneIf (a || b) = (o.withNoneIf a).withNoneIf b := by
  cases a <;> cases b <;> rfl

/-! ### Closing and opening again -/

/-- All that is open are members of unions. -/
def Opened.IsFlat (o : Opened) : Prop := ∀ d ∈ o.members, d.isMember = true

theorem Opened.IsFlat.insert (ho : o.IsFlat) (hd : d.isMember = true) : (o.insert d).IsFlat := by
  intro c hc
  by_cases h : d ∈ o.members
  · exact ho c (Opened.insert_of_mem h ▸ hc)
  · simp only [Opened.insert, if_neg h, List.mem_append, List.mem_singleton] at hc
    rcases hc with hc | rfl
    · exact ho c hc
    · exact hd

mutual
theorem isFlat_openInto {o : Opened} (ho : o.IsFlat) : ∀ d, (openInto o d).IsFlat
  | union ms => by rw [openInto]; exact isFlat_openAllInto ho ms
  | optional d => by rw [openInto]; exact isFlat_openInto (o := o.withNone) ho d
  | primitive name => by
    simp only [openInto]
    split
    · exact ho
    · next h => exact ho.insert (by simp [isMember, h])
  | list _ | dict _ _ | set _ | tuple _ _ | literal _ | callable _ _ _ | generic _ _
  | reference _ | unknown => by
    rw [openInto_of_isMember rfl]
    exact ho.insert rfl

theorem isFlat_openAllInto {o : Opened} (ho : o.IsFlat) : ∀ l, (openAllInto o l).IsFlat
  | [] => ho
  | d :: l => by rw [openAllInto]; exact isFlat_openAllInto (isFlat_openInto ho d) l
end

theorem Opened.isFlat_empty : Opened.empty.IsFlat := by simp [Opened.IsFlat, Opened.empty]

theorem isOptional_eq_false (h : d.isMember = true) : d.isOptional = false := by
  cases d <;> simp_all [isMember, isOptional, isNone]

theorem orNone_of_isMember (h : d.isMember = true) : d.orNone = optional d := by
  rw [orNone, isOptional_eq_false h]
  rfl

theorem orNone_union (ms : List Descriptor) : (union ms).orNone = optional (union ms) := by
  simp [orNone, isOptional, isNone]

/-- What is closed and not nothing opens to what it was. -/
theorem openInto_close (hp : p.IsFlat) (hne : p ≠ .empty) (o : Opened) :
    openInto o p.close = o.merge p := by
  obtain ⟨members, hasNone⟩ := p
  match members with
  | [] =>
    cases hasNone with
    | false => exact absurd rfl hne
    | true => exact openInto_none o
  | [d] =>
    have hd : d.isMember = true := hp d List.mem_cons_self
    cases hasNone with
    | false => exact openInto_of_isMember hd o
    | true =>
      show openInto o d.orNone = _
      rw [orNone_of_isMember hd, openInto, openInto_of_isMember hd]
      rfl
  | c :: d :: ds =>
    cases hasNone with
    | false =>
      show openInto o (union (c :: d :: ds)) = _
      rw [openInto, openAllInto_of_isMember hp]
      rfl
    | true =>
      show openInto o (union (c :: d :: ds)).orNone = _
      rw [orNone_union, openInto, openInto, openAllInto_of_isMember hp]
      rfl

/-- **Grouping.** A union among other members counts as its members, unless it has none. -/
theorem openInto_unionOf (h : openAllInto .empty l ≠ .empty) (o : Opened) :
    openInto o (unionOf l) = openAllInto o l := by
  rw [unionOf, openInto_close (isFlat_openAllInto Opened.isFlat_empty l) h,
    ← openAllInto_eq_merge]

/-! ### Canonical descriptors -/

/-- The descriptor is its own union. -/
def IsCanonical (d : Descriptor) : Prop := unionOf [d] = d

theorem unionOf_singleton (d : Descriptor) : unionOf [d] = (openInto .empty d).close := rfl

theorem isCanonical_of_isMember (h : d.isMember = true) : d.IsCanonical := by
  rw [IsCanonical, unionOf_singleton, openInto_of_isMember h]
  rfl

theorem isCanonical_none : none.IsCanonical := by
  rw [IsCanonical, unionOf_singleton, openInto_none]
  rfl

theorem isCanonical_unknown : unknown.IsCanonical := isCanonical_of_isMember rfl

theorem isCanonical_primitive (name : String) : (primitive name).IsCanonical := by
  cases h : (primitive name).isNone with
  | false => exact isCanonical_of_isMember (by simp [isMember, h])
  | true =>
    obtain rfl : name = "none" := by simpa [isNone] using h
    exact isCanonical_none

theorem isCanonical_unionOf (l : List Descriptor) : (unionOf l).IsCanonical := by
  by_cases h : openAllInto .empty l = .empty
  · rw [unionOf, h]
    exact isCanonical_unknown
  · rw [IsCanonical, unionOf_singleton, openInto_unionOf h, unionOf]

/-- A canonical descriptor leaves something behind when it is opened. -/
theorem IsCanonical.openInto_ne (h : d.IsCanonical) : openInto .empty d ≠ .empty := by
  intro hempty
  have hunknown : d = unknown := by rw [← h, unionOf_singleton, hempty]; rfl
  rw [hunknown, openInto_of_isMember rfl] at hempty
  simp [Opened.insert, Opened.empty] at hempty

/-- Something is left behind by canonical descriptors. -/
theorem openAllInto_ne_empty (hl : l ≠ []) (h : ∀ d ∈ l, d.IsCanonical) :
    openAllInto .empty l ≠ .empty := by
  cases l with
  | nil => exact absurd rfl hl
  | cons d l =>
    rw [openAllInto, openAllInto_eq_merge]
    exact fun hempty =>
      (h d List.mem_cons_self).openInto_ne (Opened.eq_empty_of_merge hempty)

theorem orNone_orNone (d : Descriptor) : d.orNone.orNone = d.orNone := by
  by_cases h : d.isOptional = true
  · rw [orNone, orNone, if_pos h, if_pos h]
  · rw [orNone, orNone, if_neg h]
    rfl

theorem Opened.close_withNone (hne : o ≠ .empty) : o.withNone.close = o.close.orNone := by
  obtain ⟨members, hasNone⟩ := o
  match members with
  | [] =>
    cases hasNone with
    | false => exact absurd rfl hne
    | true => rfl
  | [d] =>
    cases hasNone with
    | false => rfl
    | true => exact (orNone_orNone d).symm
  | c :: d :: ds =>
    cases hasNone with
    | false => rfl
    | true => exact (orNone_orNone (union (c :: d :: ds))).symm

/-! ### Depth -/

theorem depth_le_depthAll (h : d ∈ l) : d.depth ≤ depthAll l := by
  induction l with
  | nil => exact absurd h List.not_mem_nil
  | cons c l ih =>
    rw [depthAll]
    rcases List.mem_cons.mp h with rfl | h
    · exact Nat.le_max_left _ _
    · exact Nat.le_trans (ih h) (Nat.le_max_right _ _)

theorem depthAll_le {k : Nat} (h : ∀ d ∈ l, d.depth ≤ k) : depthAll l ≤ k := by
  induction l with
  | nil => exact Nat.zero_le k
  | cons d l ih =>
    rw [List.forall_mem_cons] at h
    exact Nat.max_le.mpr ⟨h.1, ih h.2⟩

theorem depth_orNone_le (d : Descriptor) : d.orNone.depth ≤ d.depth + 1 := by
  rw [orNone]
  split
  · exact Nat.le_succ _
  · exact Nat.le_refl _

/-- No member that is open is deeper than that. -/
def Opened.IsWithin (o : Opened) (k : Nat) : Prop := ∀ d ∈ o.members, d.depth ≤ k

theorem Opened.IsWithin.insert {k : Nat} (ho : o.IsWithin k) (hd : d.depth ≤ k) :
    (o.insert d).IsWithin k := by
  intro c hc
  by_cases h : d ∈ o.members
  · exact ho c (Opened.insert_of_mem h ▸ hc)
  · simp only [Opened.insert, if_neg h, List.mem_append, List.mem_singleton] at hc
    rcases hc with hc | rfl
    · exact ho c hc
    · exact hd

mutual
theorem isWithin_openInto {k : Nat} {o : Opened} (ho : o.IsWithin k) :
    ∀ d : Descriptor, d.depth ≤ k → (openInto o d).IsWithin k
  | union ms, h => by
    rw [depth] at h
    rw [openInto]
    exact isWithin_openAllInto ho ms (by omega)
  | optional d, h => by
    rw [depth] at h
    rw [openInto]
    exact isWithin_openInto (o := o.withNone) ho d (by omega)
  | primitive name, h => by
    simp only [openInto]
    split
    · exact ho
    · exact ho.insert h
  | list _, h | dict _ _, h | set _, h | tuple _ _, h | literal _, h | callable _ _ _, h
  | generic _ _, h | reference _, h | unknown, h => by
    rw [openInto_of_isMember rfl]
    exact ho.insert h

theorem isWithin_openAllInto {k : Nat} {o : Opened} (ho : o.IsWithin k) :
    ∀ l, depthAll l ≤ k → (openAllInto o l).IsWithin k
  | [], _ => ho
  | d :: l, h => by
    rw [depthAll] at h
    rw [openAllInto]
    exact isWithin_openAllInto (isWithin_openInto ho d (by omega)) l (by omega)
end

/-- Closing puts at most a union and an optional around what is open. -/
theorem Opened.IsWithin.depth_close_le {k : Nat} {o : Opened} (ho : o.IsWithin k) (hk : 1 ≤ k) :
    o.close.depth ≤ k + 2 := by
  obtain ⟨members, hasNone⟩ := o
  have hunion : (union members).depth ≤ k + 1 := Nat.succ_le_succ (depthAll_le ho)
  match members, hasNone with
  | [], true => exact Nat.le_trans hk (Nat.le_add_right k 2)
  | [], false => exact Nat.le_trans hk (Nat.le_add_right k 2)
  | [d], true =>
    have hd : d.depth ≤ k := ho d List.mem_cons_self
    exact Nat.le_trans (depth_orNone_le d) (by omega)
  | [d], false =>
    have hd : d.depth ≤ k := ho d List.mem_cons_self
    exact Nat.le_trans hd (Nat.le_add_right k 2)
  | c :: d :: ds, true =>
    exact Nat.le_trans (depth_orNone_le (union (c :: d :: ds))) (Nat.succ_le_succ hunion)
  | c :: d :: ds, false => exact Nat.le_trans hunion (Nat.le_succ _)

/-- A union is at most two constructors deeper than its members. -/
theorem depth_unionOf_le {k : Nat} (h : ∀ d ∈ l, d.depth ≤ k) (hk : 1 ≤ k) :
    (unionOf l).depth ≤ k + 2 :=
  (isWithin_openAllInto (by simp [Opened.IsWithin, Opened.empty]) l (depthAll_le h)).depth_close_le
    hk

example : (unionOf [list any, reference "A", none]).depth = (list any).depth + 2 := by
  decide +kernel

theorem orNone_ne_generic (d : Descriptor) (base : String) (args : List Descriptor) :
    d.orNone ≠ generic base args := by
  rw [orNone]
  split
  · next h =>
    intro heq
    rw [heq] at h
    simp [isOptional, isNone] at h
  · simp

/-- What is closed to a generic type was that type alone. -/
theorem Opened.close_eq_generic {base : String} {args : List Descriptor}
    (h : o.close = generic base args) : o.members = [generic base args] ∧ o.hasNone = false := by
  obtain ⟨members, hasNone⟩ := o
  match members, hasNone with
  | [], true => exact absurd h (by simp [Opened.close, none])
  | [], false => exact absurd h (by simp [Opened.close])
  | [d], true => exact absurd h (orNone_ne_generic d base args)
  | [d], false => exact ⟨by rw [← show d = generic base args from h], rfl⟩
  | c :: d :: ds, true => exact absurd h (orNone_ne_generic (union (c :: d :: ds)) base args)
  | c :: d :: ds, false => exact absurd h (by simp [Opened.close])

/-- A union is no generic type around its members. -/
theorem unionOf_ne_generic (l : List Descriptor) (base : String) : unionOf l ≠ generic base l := by
  intro h
  have hwithin : (openAllInto .empty l).IsWithin (depthAll l) :=
    isWithin_openAllInto (by simp [Opened.IsWithin, Opened.empty]) l (Nat.le_refl _)
  have hdepth := hwithin (generic base l) (by simp [(Opened.close_eq_generic h).1])
  rw [depth] at hdepth
  omega

/-- A union with the absent value is no generic type. -/
theorem unionOf_none_ne_generic (d : Descriptor) (base : String) (args : List Descriptor) :
    unionOf [d, none] ≠ generic base args := by
  intro h
  have hnone : (openAllInto .empty [d, none]).hasNone = true := by
    rw [openAllInto, openAllInto, openInto_none]
    rfl
  rw [(Opened.close_eq_generic h).2] at hnone
  exact Bool.false_ne_true hnone

end ApiSurface.Descriptor
