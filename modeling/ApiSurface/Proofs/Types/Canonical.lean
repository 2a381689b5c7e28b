import ApiSurface.Proofs.Types.Union

/-!
# Canonical unions

Unions and optionals are opened down to their leaves (`leaves`). The parts of a union are the leaves
other than the absent value, each where it occurs first, and the union is put together from its
parts and from whether the absent value may occur (`ofParts`). `unionOf_eq_ofParts` says so for every list
of descriptors, with what follows from it: the parts are apart from each other and cannot be opened,
a union is its own union, and a group among the members may be joined before.
-/

namespace ApiSurface.Descriptor

variable {d : Descriptor} {l : List Descriptor} {o : Opened}

/-! ### Leaves -/

mutual
/-- What is left of a descriptor when the unions and optionals at its top are opened. -/
def leaves : Descriptor → List Descriptor
  | union ms => leavesAll ms
  | optional d => leaves d
  | d => [d]

/-- The leaves of several descriptors, first to last. -/
def leavesAll : List Descriptor → List Descriptor
  | [] => []
  | d :: ds => leaves d ++ leavesAll ds
end

mutual
/-- Whether an optional or the absent value is met on the way down to the leaves. -/
def meetsNone : Descriptor → Bool
  | union ms => meetsNoneAny ms
  | optional _ => true
  | d => d.isNone

/-- Whether one is met below one of several descriptors. -/
def meetsNoneAny : List Descriptor → Bool
  | [] => false
  | d :: ds => meetsNone d || meetsNoneAny ds
end

/-- The descriptors other than the absent value, repetitions included. -/
def present (l : List Descriptor) : List Descriptor := l.filter fun d => !d.isNone

/-- The parts of a union: the leaves other than the absent value, each where it occurs first. -/
def parts (l : List Descriptor) : List Descriptor := (present (leavesAll l)).eraseDups

theorem present_append (l l' : List Descriptor) : present (l ++ l') = present l ++ present l' :=
  List.filter_append l l'

theorem present_of_isMember (h : d.isMember = true) : present [d] = [d] := by
  have hnone : d.isNone = false := by cases d <;> simp_all [isMember, isNone]
  simp [present, hnone]

namespace Opened

/-- Inserting keeps what is there and adds what is new, where it occurs first. -/
theorem members_foldl_insert (o : Opened) (l : List Descriptor) :
    (l.foldl insert o).members
      = o.members ++ (l.filter fun d => decide (d ∉ o.members)).eraseDups := by
  induction l generalizing o with
  | nil => simp
  | cons d l ih =>
    rw [List.foldl_cons, ih]
    by_cases h : d ∈ o.members
    · rw [insert_of_mem h, List.filter_cons_of_neg (by simpa using h)]
    · have hinsert : (o.insert d).members = o.members ++ [d] := by rw [insert, if_neg h]
      have hnew : (l.filter fun c => decide (c ∉ o.members ++ [d]))
          = (l.filter fun c => decide (c ∉ o.members)).filter fun c => !c == d := by
        rw [List.filter_filter]
        refine List.filter_congr fun c _ => Bool.eq_iff_iff.mpr ?_
        simp [and_comm]
      rw [hinsert, hnew, List.filter_cons_of_pos (by simpa using h), List.eraseDups_cons]
      simp

theorem nodup_members_insert (h : o.members.Nodup) (d : Descriptor) :
    (o.insert d).members.Nodup := by
  by_cases hd : d ∈ o.members
  · rwa [insert_of_mem hd]
  · rw [insert, if_neg hd]
    exact List.nodup_append.mpr ⟨h, by simp, fun c hc => by
      rw [List.forall_mem_singleton]
      exact fun heq => hd (heq ▸ hc)⟩

theorem nodup_members_foldl_insert (h : o.members.Nodup) (l : List Descriptor) :
    (l.foldl insert o).members.Nodup := by
  induction l generalizing o with
  | nil => exact h
  | cons d l ih => exact ih (nodup_members_insert h d)

theorem withNoneIf_foldl_insert (o : Opened) (b : Bool) (l : List Descriptor) :
    (l.foldl insert o).withNoneIf b = l.foldl insert (o.withNoneIf b) := by
  cases b with
  | false => rfl
  | true => exact withNone_foldl_insert o l

end Opened

theorem openInto_eq_foldl_of_isMember (h : d.isMember = true) (hl : leaves d = [d])
    (hm : meetsNone d = false) (o : Opened) :
    openInto o d = (present (leaves d)).foldl Opened.insert (o.withNoneIf (meetsNone d)) := by
  rw [hl, hm, present_of_isMember h, openInto_of_isMember h]
  rfl

mutual
/-- Opening a descriptor inserts its leaves. -/
theorem openInto_eq_foldl (o : Opened) : ∀ d,
    openInto o d = (present (leaves d)).foldl Opened.insert (o.withNoneIf (meetsNone d))
  | union ms => by
    rw [openInto, leaves, meetsNone]
    exact openAllInto_eq_foldl_leaves o ms
  | optional d => by
    have honce : o.withNone.withNoneIf (meetsNone d) = o.withNoneIf true := by
      cases meetsNone d <;> rfl
    rw [openInto, leaves, meetsNone, openInto_eq_foldl, honce]
  | primitive name => by
    cases h : (primitive name).isNone with
    | true => simp [openInto, leaves, meetsNone, present, h, Opened.withNoneIf]
    | false =>
      refine openInto_eq_foldl_of_isMember (by simp [isMember, h]) ?_ ?_ o
      · simp [leaves]
      · simp [meetsNone, h]
  | list _ | dict _ _ | set _ | tuple _ _ | literal _ | callable _ _ _ | generic _ _
  | reference _ | unknown => openInto_eq_foldl_of_isMember rfl rfl rfl o

/-- Opening several descriptors inserts their leaves, first to last. -/
theorem openAllInto_eq_foldl_leaves (o : Opened) : ∀ l,
    openAllInto o l = (present (leavesAll l)).foldl Opened.insert (o.withNoneIf (meetsNoneAny l))
  | [] => rfl
  | d :: l => by
    rw [openAllInto, openAllInto_eq_foldl_leaves, openInto_eq_foldl o d,
      Opened.withNoneIf_foldl_insert, ← List.foldl_append, ← present_append,
      ← Opened.withNoneIf_or]
    rfl
end

/-- What is opened is the parts and whether the absent value was met. -/
theorem openAllInto_empty (l : List Descriptor) :
    openAllInto .empty l = ⟨parts l, meetsNoneAny l⟩ := by
  have hmembers : (openAllInto .empty l).members = parts l := by
    have hstart : (Opened.empty.withNoneIf (meetsNoneAny l)).members = [] := by
      cases meetsNoneAny l <;> rfl
    rw [openAllInto_eq_foldl_leaves, Opened.members_foldl_insert, hstart, List.nil_append,
      List.filter_eq_self.mpr fun d _ => by simp]
    rfl
  have hnone : (openAllInto .empty l).hasNone = meetsNoneAny l := by
    rw [openAllInto_eq_foldl_leaves, Opened.hasNone_foldl_insert]
    cases meetsNoneAny l <;> rfl
  rw [← hmembers, ← hnone]

/-! ### Putting a union together -/

/-- One descriptor for all of several ones. -/
def single : List Descriptor → Descriptor
  | [d] => d
  | ds => union ds

/-- The union with the given parts. An optional is around all of them if the absent value may occur,
and the absent value stands alone if there are no parts. -/
def ofParts (ds : List Descriptor) (hasNone : Bool) : Descriptor :=
  match ds, hasNone with
  | [], false => unknown
  | [], true => none
  | ds, false => single ds
  | ds, true => optional (single ds)

theorem close_eq_ofParts (ho : o.IsFlat) : o.close = ofParts o.members o.hasNone := by
  obtain ⟨members, hasNone⟩ := o
  match members, hasNone with
  | [], false => rfl
  | [], true => rfl
  | [d], false => rfl
  | [d], true => exact orNone_of_isMember (ho d List.mem_cons_self)
  | c :: d :: ds, false => rfl
  | c :: d :: ds, true => exact orNone_union (c :: d :: ds)

theorem mem_leavesAll {c : Descriptor} (hd : d ∈ l) (hc : c ∈ leaves d) : c ∈ leavesAll l := by
  induction l with
  | nil => cases hd
  | cons e l ih =>
    rw [leavesAll, List.mem_append]
    rcases List.mem_cons.mp hd with rfl | hd
    · exact .inl hc
    · exact .inr (ih hd)

theorem ofParts_ne_unknown {c : Descriptor} {ds : List Descriptor} (h : c ∈ ds) (hc : c ≠ unknown)
    (hasNone : Bool) : ofParts ds hasNone ≠ unknown := by
  match ds, hasNone with
  | [d], false => exact List.mem_singleton.mp h ▸ hc
  | [_], true | _ :: _ :: _, false | _ :: _ :: _, true => simp [ofParts, single]

/-- A union with a reference among its members is recognised. -/
theorem unionOf_ne_unknown_of_mem {name : String} (h : reference name ∈ l) :
    unionOf l ≠ unknown := by
  have hleaf : reference name ∈ leavesAll l := mem_leavesAll h (by simp [leaves])
  have hpart : reference name ∈ parts l :=
    List.mem_eraseDups.mpr (List.mem_filter.mpr ⟨hleaf, rfl⟩)
  rw [unionOf, close_eq_ofParts (isFlat_openAllInto Opened.isFlat_empty l), openAllInto_empty]
  exact ofParts_ne_unknown hpart (by simp) (meetsNoneAny l)

/-- **The canonical union.** A union is put together from its parts, and from whether the absent
value may occur; the parts are apart from each other, and none of them is a union, an optional or
the absent value. So a union is its own union, and a group of members that leaves something behind
may be joined by itself before. -/
theorem unionOf_eq_ofParts (l : List Descriptor) :
    unionOf l = ofParts (parts l) (meetsNoneAny l) ∧
    (parts l).Nodup ∧ (∀ d ∈ parts l, d.isMember = true) ∧
    unionOf [unionOf l] = unionOf l ∧
    ∀ before group after, (parts group ≠ [] ∨ meetsNoneAny group = true) →
      unionOf (before ++ unionOf group :: after) = unionOf (before ++ group ++ after) := by
  have hopened := openAllInto_empty l
  have hflat : (Opened.mk (parts l) (meetsNoneAny l)).IsFlat :=
    hopened ▸ isFlat_openAllInto Opened.isFlat_empty l
  refine ⟨?_, ?_, hflat, isCanonical_unionOf l, fun before group after hgroup => ?_⟩
  · rw [unionOf, hopened]
    exact close_eq_ofParts hflat
  · have hparts : parts l = (openAllInto .empty l).members := by rw [hopened]
    rw [hparts, openAllInto_eq_foldl_leaves]
    refine Opened.nodup_members_foldl_insert ?_ _
    cases meetsNoneAny l <;> exact List.nodup_nil
  · have hne : openAllInto .empty group ≠ .empty := by
      rw [openAllInto_empty]
      intro hempty
      obtain ⟨hparts, hnone⟩ := Opened.mk.inj hempty
      rcases hgroup with h | h
      · exact h hparts
      · exact Bool.false_ne_true (hnone.symm.trans h)
    refine congrArg Opened.close (?_ : openAllInto .empty _ = openAllInto .empty _)
    rw [openAllInto_append, openAllInto, openInto_unionOf hne, openAllInto_append,
      openAllInto_append]

/-- The theorem applies to members that are no canonical unions themselves: optionals of optionals,
unions in unions and repetitions. -/
theorem unionOf_eq_ofParts_nested :
    let group := [union [reference "A", union [none, list any]], reference "A"]
    parts group ≠ [] ∧
    unionOf (optional (optional (set any)) :: unionOf group :: [reference "A"])
      = unionOf ([optional (optional (set any))] ++ group ++ [reference "A"]) ∧
    unionOf ([optional (optional (set any))] ++ group ++ [reference "A"])
      = optional (union [set any, reference "A", list any]) := by
  intro group
  have hparts : parts group ≠ [] := by decide +kernel
  obtain ⟨-, -, -, -, hgroup⟩ := unionOf_eq_ofParts group
  exact ⟨hparts, hgroup [optional (optional (set any))] group [reference "A"] (.inl hparts),
    by decide +kernel⟩

end ApiSurface.Descriptor
