import ApiSurface.TypeHint.Normalize

/-!
# What a level of reading builds

One level of reading an annotation gives a type that is known by itself, passes on the reading of
something below, or puts one construct or one union around readings below (`isBuilt_level`). What
holds of all these types holds of readings of any number of levels.
-/

namespace ApiSurface.TypeHint

open ApiSurface.Syntax (Node)
open ApiSurface.Descriptor (unionOf)

variable {s : Source} {below : Below} {look : Look} {n : Node} {args : List Node}

/-- A type that a level puts something around: the reading of something below, or what stands for an
argument that is not given or for the absent value. -/
inductive IsPart (below : Below) : Descriptor → Prop
  | reading (look : Look) (c : Node) : IsPart below (below look c).descriptor
  | missing : IsPart below missing
  | absent : IsPart below .none

/-- A type that a level can give. -/
inductive IsBuilt (below : Below) : Descriptor → Prop
  | part {d : Descriptor} (h : IsPart below d) : IsBuilt below d
  | unknown : IsBuilt below .unknown
  | primitive (name : String) : IsBuilt below (.primitive name)
  | reference (name : String) : IsBuilt below (.reference name)
  | literal (values : List LiteralValue) : IsBuilt below (.literal values)
  | bare (form : Form) : IsBuilt below (bareForm form)
  | list {d : Descriptor} (h : IsPart below d) : IsBuilt below (.list d)
  | set {d : Descriptor} (h : IsPart below d) : IsBuilt below (.set d)
  | dict {k v : Descriptor} (hk : IsPart below k) (hv : IsPart below v) : IsBuilt below (.dict k v)
  | tuple {ds : List Descriptor} (variadic : Bool) (h : ∀ d ∈ ds, IsPart below d) :
    IsBuilt below (.tuple ds variadic)
  | callable {ds : List Descriptor} {r : Descriptor} (anyParams : Bool)
    (h : ∀ d ∈ ds, IsPart below d) (hr : IsPart below r) : IsBuilt below (.callable ds anyParams r)
  | generic {ds : List Descriptor} (base : String) (h : ∀ d ∈ ds, IsPart below d) :
    IsBuilt below (.generic base ds)
  | union {ds : List Descriptor} (h : ∀ d ∈ ds, IsPart below d) : IsBuilt below (unionOf ds)

theorem IsBuilt.reading (look : Look) (c : Node) : IsBuilt below (below look c).descriptor :=
  .part (.reading look c)

/-! ### Arguments -/

theorem isPart_argument (i : Nat) : IsPart below (argument below look args i) := by
  rw [argument]
  split
  · exact .reading look _
  · exact .missing

theorem isPart_of_mem_descriptors {d : Descriptor} (h : d ∈ descriptors below look args) :
    IsPart below d := by
  obtain ⟨c, -, rfl⟩ := List.mem_map.mp h
  exact .reading look c

theorem isPart_itemType : IsPart below (itemType below look n) := by
  rw [itemType]
  split
  · exact .reading look _
  · exact .missing

/-! ### Names and quotes -/

theorem isBuilt_ofPath (path written : String) :
    IsBuilt below (ofPath path written).descriptor := by
  rw [ofPath]
  split
  · next name _ =>
    dsimp only
    split
    · exact .primitive name
    · exact .primitive name
  · split
    · exact .bare _
    · exact .reference _

theorem isBuilt_ofAlias (name : String) (a : Binding.TypeAlias) :
    IsBuilt below (ofAlias below look name a).descriptor := by
  rw [ofAlias]
  split
  · exact .unknown
  · exact .reading _ _

theorem isBuilt_ofName : IsBuilt below (ofName s below look n).descriptor := by
  unfold ofName
  extract_lets text a viaPath
  have hpath : IsBuilt below viaPath.descriptor := by
    unfold viaPath
    split
    · exact isBuilt_ofPath _ _
    · exact .unknown
  clear_value viaPath
  split
  · exact hpath
  · split
    · exact isBuilt_ofAlias _ _
    · split
      · exact .reference _
      · exact .unknown
    · exact .unknown
    · exact hpath

theorem isBuilt_ofQuoted : IsBuilt below (ofQuoted s below look n).descriptor := by
  rw [ofQuoted]
  split
  · exact .unknown
  · dsimp only
    split
    · exact .unknown
    · split
      · exact .unknown
      · exact .reading _ _

/-! ### Constructs and unions -/

theorem isBuilt_ofTuple : IsBuilt below (ofTuple below look args) := by
  unfold ofTuple
  split
  · split
    · exact .tuple true fun _ => isPart_of_mem_descriptors
    · exact .tuple false fun _ => isPart_of_mem_descriptors
  · split
    · exact .tuple false fun _ h => absurd h List.not_mem_nil
    · exact .tuple false fun _ => isPart_of_mem_descriptors
  · exact .tuple false fun _ => isPart_of_mem_descriptors

theorem isBuilt_ofCallable : IsBuilt below (ofCallable below look args) := by
  rw [ofCallable]
  split
  · split
    · exact .callable false (fun _ => isPart_of_mem_descriptors) (isPart_argument 1)
    · exact .callable true (fun _ h => absurd h List.not_mem_nil) (isPart_argument 1)
  · exact .callable true (fun _ h => absurd h List.not_mem_nil) (isPart_argument 1)

theorem isBuilt_ofForm (form : Form) (last : String) :
    IsBuilt below (ofForm below look form last args).descriptor := by
  cases form with
  | list => exact .list (isPart_argument 0)
  | set => exact .set (isPart_argument 0)
  | dict => exact .dict (isPart_argument 0) (isPart_argument 1)
  | tuple => exact isBuilt_ofTuple
  | optional =>
    refine .union ?_
    rw [List.forall_mem_cons, List.forall_mem_singleton]
    exact ⟨isPart_argument 0, .absent⟩
  | union => exact .union fun _ => isPart_of_mem_descriptors
  | literal => exact .literal _
  | callable => exact isBuilt_ofCallable
  | type => exact .generic "type" (List.forall_mem_singleton.mpr (isPart_argument 0))
  | annotated | qualifier =>
    cases args with
    | nil => exact .unknown
    | cons c args => exact .reading look c

theorem isBuilt_ofSubscript : IsBuilt below (ofSubscript s below look n).descriptor := by
  rw [ofSubscript]
  split
  · exact .unknown
  · dsimp only
    split
    · exact .unknown
    · split
      · exact isBuilt_ofForm _ _
      · exact .generic _ fun _ => isPart_of_mem_descriptors

theorem isBuilt_ofUnion : IsBuilt below (ofUnion below look n).descriptor :=
  .union fun _ => isPart_of_mem_descriptors

theorem isBuilt_ofCall : IsBuilt below (ofCall s below look n).descriptor := by
  rw [ofCall]
  split
  · exact .unknown
  · dsimp only
    split
    · exact .unknown
    · next kind _ =>
      cases kind with
      | scalar name => exact .primitive name
      | list => exact .list isPart_itemType
      | set => exact .set isPart_itemType

/-- **All that a level gives.** -/
theorem isBuilt_level (s : Source) (below : Below) (look : Look) (n : Node) :
    IsBuilt below (level s below look n).descriptor := by
  rw [level]
  split
  · exact .part .absent
  · exact isBuilt_ofName
  · exact isBuilt_ofName
  · exact isBuilt_ofName
  · exact isBuilt_ofQuoted
  · exact isBuilt_ofQuoted
  · exact isBuilt_ofSubscript
  · exact isBuilt_ofSubscript
  · split
    · exact isBuilt_ofUnion
    · exact .unknown
  · exact isBuilt_ofUnion
  · exact isBuilt_ofCall
  · exact .unknown

end ApiSurface.TypeHint
