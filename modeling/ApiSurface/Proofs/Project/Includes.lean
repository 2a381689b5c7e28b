import ApiSurface.Proofs.Project.Conservation
import ApiSurface.Proofs.Project.Embedding
import ApiSurface.Proofs.Project.Placement

/-!
# What becomes of includes

The includes of all files are settled in one pass, in the order of their places (`intake`): one with
an unknown side stays unresolved, the first one of a group puts it under its parent, and any later
one of that group is passed over. The pass keeps positions, since a file may hold two includes that
are equal.

The index of groups is defined without the pass, by a search in the list of edges. It shows what the
pass settles (`unresolved_build_eq_intake`, `kept?_graph`), so every include has exactly one of the
three fates and a linked group shows the include that is kept
(`GroupIndex.build_settles_every_include`).
-/

namespace ApiSurface.Project

variable {files : List FileFacts} {l : List GroupInclude} {i : GroupInclude} {child j k n : Nat}

/-! ### Unresolved includes -/

/-- The parent of the include is no group of the files, or the include points at none. -/
def IsUnresolved (files : List FileFacts) (i : GroupInclude) : Prop :=
  (∀ g ∈ files.flatMap (·.groups), g.key ≠ i.parent) ∨ target? files (sortedGroups files) i = none

instance (files : List FileFacts) : DecidablePred (IsUnresolved files) := fun _ =>
  inferInstanceAs (Decidable (_ ∨ _))

theorem indexOf?_eq_none_iff {groups : List RouteGroup} {key : GroupKey} :
    indexOf? groups key = none ↔ ∀ g ∈ groups, g.key ≠ key := by
  induction groups with
  | nil => simp [indexOf?, lastIndex?]
  | cons g groups ih =>
    rw [indexOf?] at ih ⊢
    rw [lastIndex?, List.forall_mem_cons, ← ih]
    cases lastIndex? (fun g => decide (g.key = key)) groups <;> simp

theorem key_of_indexOf? {groups : List RouteGroup} {key : GroupKey} {g : RouteGroup}
    (hn : indexOf? groups key = some n) (hg : groups[n]? = some g) : g.key = key := by
  have hfind : groups.reverse.find? (fun g => g.key = key) = some g := by
    rw [← getElem?_lastIndex?, ← indexOf?, hn]
    exact hg
  exact of_decide_eq_true (List.find?_some (p := fun g : RouteGroup => decide (g.key = key)) hfind)

theorem isUnresolved_iff : IsUnresolved files i ↔ edge? files (sortedGroups files) i = none := by
  have hparent : (∀ g ∈ files.flatMap (·.groups), g.key ≠ i.parent) ↔
      indexOf? (sortedGroups files) i.parent = none := by
    simp only [indexOf?_eq_none_iff, sortedGroups, List.mem_mergeSort]
  rw [IsUnresolved, hparent, edge?]
  cases indexOf? (sortedGroups files) i.parent <;>
    cases target? files (sortedGroups files) i <;> simp

/-! ### One pass -/

/-- Whether an include resolves and puts the group `child` somewhere. -/
def leadsTo (files : List FileFacts) (child : Nat) (i : GroupInclude) : Bool :=
  (edge? files (sortedGroups files) i).any fun e => e.child == child

/-- What a pass over the includes has settled. -/
structure Intake where
  unresolved : List GroupInclude
  /-- The position of the include that puts a group under its parent. -/
  keeper? : Nat → Option Nat

/-- Settle an include at its position. A group that was put somewhere stays there. -/
def Intake.settle (files : List FileFacts) (s : Intake) (entry : GroupInclude × Nat) : Intake :=
  match edge? files (sortedGroups files) entry.1 with
  | none => { s with unresolved := s.unresolved ++ [entry.1] }
  | some e =>
    if (s.keeper? e.child).isSome then s
    else { s with keeper? := Function.update s.keeper? e.child (some entry.2) }

/-- The pass over the includes of all files in the order of their places. -/
def intake (files : List FileFacts) : Intake :=
  (sortedIncludes files).zipIdx.foldl (Intake.settle files) ⟨[], fun _ => none⟩

/-- What holds when the includes of `l` are settled. -/
structure HasSettled (files : List FileFacts) (l : List GroupInclude) (s : Intake) : Prop where
  unresolved : s.unresolved = l.filter fun i => IsUnresolved files i
  /-- The first include of a group keeps it. -/
  keeper : ∀ child, s.keeper? child = l.findIdx? (leadsTo files child)

/-- **One step.** The next include has one of three fates. -/
theorem HasSettled.settle {s : Intake} (hs : HasSettled files l s) (i : GroupInclude) :
    HasSettled files (l ++ [i]) (s.settle files (i, l.length)) := by
  cases he : edge? files (sortedGroups files) i with
  | none =>
    have hi : IsUnresolved files i := isUnresolved_iff.mpr he
    have hleads : ∀ child, leadsTo files child i = false := fun child => by simp [leadsTo, he]
    simp only [Intake.settle, he]
    exact ⟨by simp [hs.unresolved, hi], fun child => by
      simp [hs.keeper, List.findIdx?_append, List.findIdx?_singleton, hleads]⟩
  | some e =>
    have hi : ¬ IsUnresolved files i := fun h => by simp [isUnresolved_iff.mp h] at he
    have hleads : ∀ child, leadsTo files child i = (e.child == child) := fun child => by
      simp [leadsTo, he]
    have hunresolved : s.unresolved = (l ++ [i]).filter fun i => IsUnresolved files i := by
      simp [hs.unresolved, hi]
    simp only [Intake.settle, he]
    split
    · next hkept =>
      -- the group was put somewhere by an earlier include
      refine ⟨hunresolved, fun child => ?_⟩
      rw [List.findIdx?_append, ← hs.keeper]
      by_cases hchild : e.child = child
      · subst hchild
        exact (Option.or_of_isSome hkept).symm
      · simp [List.findIdx?_singleton, hleads, hchild]
    · next hnew =>
      refine ⟨hunresolved, fun child => ?_⟩
      rw [List.findIdx?_append, ← hs.keeper]
      by_cases hchild : e.child = child
      · subst hchild
        rw [Option.not_isSome_iff_eq_none.mp hnew]
        simp [List.findIdx?_singleton, hleads]
      · simp [List.findIdx?_singleton, hleads, hchild, Function.update_of_ne (Ne.symm hchild)]

/-- **The whole pass.** -/
theorem hasSettled_intake (files : List FileFacts) :
    HasSettled files (sortedIncludes files) (intake files) := by
  rw [intake]
  induction sortedIncludes files using List.reverseRecOn with
  | nil => exact ⟨rfl, fun _ => rfl⟩
  | append_singleton l i ih =>
    rw [List.zipIdx_append, List.foldl_append, Nat.zero_add]
    exact ih.settle i

/-! ### Positions -/

/-- The edge of the include at a position. -/
def edgeAt? (files : List FileFacts) (k : Nat) : Option Edge :=
  (sortedIncludes files)[k]?.bind (edge? files (sortedGroups files))

/-- The group that the include at a position puts somewhere. -/
def childAt? (files : List FileFacts) (k : Nat) : Option Nat := (edgeAt? files k).map (·.child)

theorem childAt?_eq_some_iff (hi : (sortedIncludes files)[k]? = some i) :
    childAt? files k = some child ↔ leadsTo files child i := by
  simp [childAt?, edgeAt?, hi, leadsTo, Option.any_eq_true]

theorem childAt?_eq_none_iff (hi : (sortedIncludes files)[k]? = some i) :
    childAt? files k = none ↔ IsUnresolved files i := by
  simp [childAt?, edgeAt?, hi, isUnresolved_iff]

/-- **The first include of a group** in the order of places is kept, and no other one. -/
theorem keeper?_eq_some_iff :
    (intake files).keeper? child = some k ↔
      childAt? files k = some child ∧ ∀ j < k, childAt? files j ≠ some child := by
  rw [(hasSettled_intake files).keeper, List.findIdx?_eq_some_iff_getElem]
  constructor
  · rintro ⟨hk, hleads, hfirst⟩
    refine ⟨(childAt?_eq_some_iff (List.getElem?_eq_getElem hk)).mpr hleads, fun j hj => ?_⟩
    rw [Ne, childAt?_eq_some_iff (List.getElem?_eq_getElem (hj.trans hk))]
    exact hfirst j hj
  · rintro ⟨hchild, hfirst⟩
    have hk : k < (sortedIncludes files).length := by
      by_contra hk
      simp [childAt?, edgeAt?, List.getElem?_eq_none (Nat.le_of_not_lt hk)] at hchild
    refine ⟨hk, (childAt?_eq_some_iff (List.getElem?_eq_getElem hk)).mp hchild, fun j hj => ?_⟩
    rw [← childAt?_eq_some_iff (List.getElem?_eq_getElem (hj.trans hk))]
    exact hfirst j hj

/-- Where an include leads to a group, some include keeps that group. -/
theorem exists_keeper? (hk : childAt? files k = some child) :
    ∃ j, (intake files).keeper? child = some j := by
  induction k using Nat.strongRecOn with
  | ind k ih =>
    by_cases hfirst : ∃ j < k, childAt? files j = some child
    · obtain ⟨j, hj, hchild⟩ := hfirst
      exact ih j hj hchild
    · push Not at hfirst
      exact ⟨k, keeper?_eq_some_iff.mpr ⟨hk, hfirst⟩⟩

/-- What becomes of an include. -/
inductive Fate where
  | unresolved
  /-- The include puts its group under the parent. -/
  | kept
  /-- Another include puts the group somewhere. -/
  | shadowed

/-- The include at position `k` has the fate. -/
def HasFate (files : List FileFacts) (k : Nat) : Fate → Prop
  | .unresolved => ∃ i, (sortedIncludes files)[k]? = some i ∧ IsUnresolved files i
  | .kept => ∃ child, childAt? files k = some child ∧ (intake files).keeper? child = some k
  | .shadowed => ∃ child j, childAt? files k = some child ∧ childAt? files j = some child ∧
      j ≠ k ∧ (intake files).keeper? child = some j

/-- **Exactly one fate** for each include. -/
theorem existsUnique_hasFate (hk : k < (sortedIncludes files).length) :
    ∃! fate, HasFate files k fate := by
  have hi := List.getElem?_eq_getElem hk
  cases hchild : childAt? files k with
  | none =>
    refine ⟨.unresolved, ⟨_, hi, (childAt?_eq_none_iff hi).mp hchild⟩, fun fate hfate => ?_⟩
    rcases fate with _ | _ | _
    · rfl
    · obtain ⟨c, hc, -⟩ := hfate
      rw [hchild] at hc
      cases hc
    · obtain ⟨c, j, hc, -⟩ := hfate
      rw [hchild] at hc
      cases hc
  | some child =>
    have hresolved : ¬ HasFate files k .unresolved := by
      rintro ⟨i, hi, hnone⟩
      rw [(childAt?_eq_none_iff hi).mpr hnone] at hchild
      cases hchild
    obtain ⟨j, hj⟩ := exists_keeper? hchild
    by_cases hjk : j = k
    · subst hjk
      refine ⟨.kept, ⟨child, hchild, hj⟩, fun fate hfate => ?_⟩
      cases fate with
      | unresolved => exact absurd hfate hresolved
      | kept => rfl
      | shadowed =>
        obtain ⟨c, j', hc, -, hne, hj'⟩ := hfate
        obtain rfl : child = c := Option.some.inj (hchild.symm.trans hc)
        exact absurd (Option.some.inj (hj'.symm.trans hj)) hne
    · refine ⟨.shadowed, ⟨child, j, hchild, (keeper?_eq_some_iff.mp hj).1, hjk, hj⟩,
        fun fate hfate => ?_⟩
      cases fate with
      | unresolved => exact absurd hfate hresolved
      | kept =>
        obtain ⟨c, hc, hk'⟩ := hfate
        obtain rfl : child = c := Option.some.inj (hchild.symm.trans hc)
        exact absurd (Option.some.inj (hj.symm.trans hk')) hjk
      | shadowed => rfl

/-! ### What the index shows -/

namespace GroupIndex

/-- The index lists the includes that the pass leaves. -/
theorem unresolved_build_eq_intake (files : List FileFacts) :
    (build files).unresolved = (intake files).unresolved := by
  rw [(hasSettled_intake files).unresolved, build]
  refine List.filter_congr fun i _ => ?_
  rw [Bool.eq_iff_iff, decide_eq_true_iff, isUnresolved_iff, Option.isNone_iff_eq_none]

/-- The edge above a group is the one of its keeper. -/
theorem kept?_graph (files : List FileFacts) (child : Nat) :
    (graph files).kept? child = ((intake files).keeper? child).bind (edgeAt? files) := by
  rw [(hasSettled_intake files).keeper, Graph.kept?, graph, List.find?_filterMap,
    List.find?_eq_bind_findIdx?_getElem?, Option.bind_assoc]
  rfl

/-- The unresolved includes are in the order of places, those of one place in that of the files. -/
theorem isStableSort_unresolved (files : List FileFacts) :
    IsStableSort (placeLE GroupInclude.location)
      ((files.flatMap (·.includes)).filter fun i => IsUnresolved files i)
      (build files).unresolved := by
  have hsortable := isSortable_location GroupInclude.location
  rw [unresolved_build_eq_intake, (hasSettled_intake files).unresolved, sortedIncludes,
    hsortable.filter_mergeSort]
  exact hsortable.isStableSort_mergeSort _

/-- A linked group shows the parent and the prefix of the include that keeps it. -/
theorem shows_keeper_of_linked {placed : RouteGroup}
    (hplaced : (build files).groups[n]? = some placed) (hlinked : placed.status = .linked) :
    ∃ k i, (intake files).keeper? n = some k ∧ (sortedIncludes files)[k]? = some i ∧
      placed.parent = some i.parent ∧ placed.mountPrefix = i.mountPrefix := by
  have hplaced' := (graph files).getElem?_placedGroups n ▸ hplaced
  obtain ⟨declared, hn, rfl⟩ := Option.map_eq_some_iff.mp hplaced'
  have hlt : n < (graph files).size := (List.getElem?_eq_some_iff.mp hn).1
  obtain ⟨e, parent, hkept, hparent, hkey, hmount⟩ :=
    (Graph.isPlaced_placed declared hlt).parent_of_linked hlinked
  rw [kept?_graph] at hkept
  obtain ⟨k, hk, hedge⟩ := Option.bind_eq_some_iff.mp hkept
  obtain ⟨i, hi, he⟩ := Option.bind_eq_some_iff.mp hedge
  obtain ⟨p, hp, he⟩ := Option.bind_eq_some_iff.mp he
  obtain ⟨c, -, he⟩ := Option.bind_eq_some_iff.mp he
  obtain rfl : (⟨p, c, i⟩ : Edge) = e := Option.some.inj he
  exact ⟨k, i, hk, hi, hkey.trans (congrArg some (key_of_indexOf? hp hparent)), hmount⟩

/-- **Every include is settled.** In the order of file and span, ties in the order of the files,
each include is unresolved, kept or shadowed by another one of the same group, and only one of these.
The index lists the unresolved ones in that order; of the includes of one group the first is kept;
and a linked group shows the parent and the prefix of the include that keeps it. -/
theorem build_settles_every_include (files : List FileFacts) :
    IsStableSort (placeLE GroupInclude.location) (files.flatMap (·.includes))
      (sortedIncludes files) ∧
    (∀ k < (sortedIncludes files).length, ∃! fate, HasFate files k fate) ∧
    IsStableSort (placeLE GroupInclude.location)
      ((files.flatMap (·.includes)).filter fun i => IsUnresolved files i)
      (build files).unresolved ∧
    (∀ child k, (intake files).keeper? child = some k ↔
      childAt? files k = some child ∧ ∀ j < k, childAt? files j ≠ some child) ∧
    (∀ child, (graph files).kept? child
      = ((intake files).keeper? child).bind (edgeAt? files)) ∧
    ∀ n placed, (build files).groups[n]? = some placed → placed.status = .linked →
      ∃ k i, (intake files).keeper? n = some k ∧ (sortedIncludes files)[k]? = some i ∧
        placed.parent = some i.parent ∧ placed.mountPrefix = i.mountPrefix :=
  ⟨(isSortable_location GroupInclude.location).isStableSort_mergeSort _,
    fun _ => existsUnique_hasFate, isStableSort_unresolved files, fun _ _ => keeper?_eq_some_iff,
    kept?_graph files, fun _ _ => shows_keeper_of_linked⟩

end GroupIndex

end ApiSurface.Project
