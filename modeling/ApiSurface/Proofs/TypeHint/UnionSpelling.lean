import ApiSurface.Proofs.TypeHint.Below
import ApiSurface.Proofs.TypeHint.Shapes
import ApiSurface.Proofs.Types.Union

/-!
# The spellings of a union

An annotation can spell the union of some operands with `Union[...]`, with bars, with
`Optional[...]` around a part, and with any nesting of these around consecutive operands (`Spells`).
Each spelling takes its own way through the reading. All of them read as the canonical union of the
operands, made optional where the absent value stands among them (`typeWithin_of_spells`).

Every reading is canonical (`isCanonical_readWithin`), which is why a group of operands counts as
its members wherever it stands.
-/

namespace ApiSurface.TypeHint

open ApiSurface.Syntax (Node)
open ApiSurface.Expr (stripType stripType_stripType)
open ApiSurface.Text (compactString)
open ApiSurface.Descriptor (IsCanonical Opened openInto openAllInto unionOf)

variable {s : Source} {below : Below} {look : Look} {n n' : Node} {args ops ops' : List Node}
  {form : Form} {b : Bool} {d : Descriptor}

/-! ### Readings are canonical -/

section Canonical

theorem isCanonical_of_isPart (hbelow : ∀ look c, (below look c).descriptor.IsCanonical)
    (h : IsPart below d) : d.IsCanonical := by
  cases h with
  | reading look c => exact hbelow look c
  | missing => exact Descriptor.isCanonical_of_isMember rfl
  | absent => exact Descriptor.isCanonical_none

/-- A level builds unions and optionals by `unionOf` only. -/
theorem isCanonical_of_isBuilt (hbelow : ∀ look c, (below look c).descriptor.IsCanonical)
    (h : IsBuilt below d) : d.IsCanonical := by
  cases h with
  | part h => exact isCanonical_of_isPart hbelow h
  | primitive name => exact Descriptor.isCanonical_primitive name
  | bare form => exact Descriptor.isCanonical_of_isMember (by cases form <;> rfl)
  | union h => exact Descriptor.isCanonical_unionOf _
  | unknown | reference | literal | list | set | dict | tuple | callable | generic =>
    exact Descriptor.isCanonical_of_isMember rfl

/-- The reading of an annotation is its own union. -/
theorem isCanonical_readWithin (s : Source) (depth : Nat) (look : Look) (n : Node) :
    (readWithin s depth look n).descriptor.IsCanonical := by
  induction depth generalizing look n with
  | zero => exact Descriptor.isCanonical_unknown
  | succ depth ih => exact isCanonical_of_isBuilt ih (isBuilt_level s _ look n)

end Canonical

/-! ### Spellings -/

/-- The construct that a subscript applies, with its arguments. -/
def construct? (s : Source) (look : Look) (n : Node) : Option (Form × List Node) :=
  let m := stripType n
  if subscriptKinds.contains m.kind then
    match subscriptParts m with
    | (some base, args) =>
      ((pathOf? s (compactString base.text) (anchorOf s look base)).bind form?).map (·, args)
    | (none, _) => none
  else none

/-- The node is read as one operand. In the grammar every expression is: no annotation is wrapped
inside parentheses, and a bar stands between operands. -/
structure IsOperand (n : Node) : Prop where
  kind_ne : (stripType n).kind ≠ "type"
  leaves_ne : unionLeaves n ≠ []

/-- A part of a spelling. -/
structure Part where
  node : Node
  operands : List Node
  hasNone : Bool

/-- The annotation spells the union of the operands, and whether the absent value stands among
them. -/
inductive Spells (s : Source) (look : Look) : Node → List Node → Bool → Prop
  | operand {n : Node} (h : IsOperand n) : Spells s look n [n] false
  | absent {n : Node} (hk : (stripType n).kind = "none") : Spells s look n [] true
  /-- `Optional[...]` around a spelling. -/
  | optional {n arg : Node} {ops : List Node} {b : Bool}
    (hform : construct? s look n = some (.optional, [arg])) (h : Spells s look arg ops b) :
    Spells s look n ops true
  /-- `Union[...]` around spellings. -/
  | union {n : Node} (parts : List Part) (hne : parts ≠ [])
    (hform : construct? s look n = some (.union, parts.map Part.node))
    (h : ∀ p ∈ parts, Spells s look p.node p.operands p.hasNone) :
    Spells s look n (parts.flatMap Part.operands) (parts.any Part.hasNone)
  /-- Spellings between bars. -/
  | bars {n : Node} (parts : List Part) (hne : parts ≠ []) (hunion : isUnion (stripType n) = true)
    (hparts : (stripType n).namedChildren = parts.map Part.node)
    (h : ∀ p ∈ parts, Spells s look p.node p.operands p.hasNone) :
    Spells s look n (parts.flatMap Part.operands) (parts.any Part.hasNone)

/-! ### Levels of spellings -/

theorem construct?_eq_some_iff : construct? s look n = some (form, args) ↔
    (stripType n).kind ∈ subscriptKinds ∧ ∃ base path,
      subscriptParts (stripType n) = (some base, args) ∧
      pathOf? s (compactString base.text) (anchorOf s look base) = some path ∧
      form? path = some form := by
  simp only [construct?, Option.ite_none_right_eq_some, List.contains_iff_mem]
  refine and_congr_right fun _ => ?_
  split
  · next base args' hparts =>
    rw [hparts]
    simp only [Option.map_eq_some_iff, Option.bind_eq_some_iff, Prod.mk.injEq, Option.some.injEq]
    constructor
    · rintro ⟨form', ⟨path, hpath, hform⟩, rfl, rfl⟩
      exact ⟨base, path, ⟨rfl, rfl⟩, hpath, hform⟩
    · rintro ⟨base', path, ⟨rfl, rfl⟩, hpath, hform⟩
      exact ⟨form, ⟨path, hpath, hform⟩, rfl, rfl⟩
  · next hparts => simp [hparts]

theorem level_of_construct? (below : Below) (h : construct? s look n = some (form, args)) :
    ∃ last, level s below look n = ofForm below look form last args := by
  obtain ⟨hk, base, path, hparts, hpath, hform⟩ := construct?_eq_some_iff.mp h
  refine ⟨Text.afterLastString '.' (compactString base.text), ?_⟩
  simp only [level_of_mem_subscriptKinds hk, ofSubscript, hparts, hpath, hform]

theorem asked_of_construct? (h : construct? s look n = some (form, args)) :
    asked s look n = (formParts form args).map (.part look) := by
  obtain ⟨hk, base, path, hparts, hpath, hform⟩ := construct?_eq_some_iff.mp h
  have hasked : asked s look n = (subscriptAsked s look (stripType n)).map (.part look) := by
    simp only [subscriptKinds, List.mem_cons, List.not_mem_nil, or_false] at hk
    rcases hk with hk | hk <;> simp only [asked, hk]
  simp only [hasked, subscriptAsked, hparts, hpath, hform]

theorem stripType_of_construct? (h : construct? s look n = some (form, args)) :
    stripType (stripType n) = stripType n := by
  obtain ⟨hk, -⟩ := construct?_eq_some_iff.mp h
  exact stripType_stripType fun hk' => by simp [subscriptKinds, hk'] at hk

theorem isUnion_of_construct? (h : construct? s look n = some (form, args)) :
    isUnion (stripType n) = false := by
  obtain ⟨hk, -⟩ := construct?_eq_some_iff.mp h
  simp only [subscriptKinds, List.mem_cons, List.not_mem_nil, or_false] at hk
  rcases hk with hk | hk <;> simp [isUnion, hk]

theorem isUnion_cases (h : isUnion n = true) :
    (n.kind = "binary_operator" ∧ n.hasToken "|" = true) ∨ n.kind = "union_type" := by
  simpa [isUnion] using h

theorem level_of_isUnion (h : isUnion (stripType n) = true) :
    level s below look n = ofUnion below look (stripType n) := by
  rcases isUnion_cases h with ⟨hk, hbar⟩ | hk
  · simp only [level, hk, hbar, if_true]
  · simp only [level, hk]

theorem stripType_of_isUnion (h : isUnion (stripType n) = true) :
    stripType (stripType n) = stripType n :=
  stripType_stripType fun hk => by
    rcases isUnion_cases h with ⟨hk', -⟩ | hk' <;> simp [hk] at hk'

theorem unionLeaves_of_isUnion (h : isUnion (stripType n) = true) :
    unionLeaves n = (stripType n).namedChildren.flatMap unionLeaves := by
  rw [unionLeaves, if_pos h]
  simp

theorem unionLeaves_of_not_isUnion (h : isUnion (stripType n) = false) :
    unionLeaves n = [stripType n] := by
  rw [unionLeaves, if_neg (by simp [h])]

theorem asked_of_isUnion (h : isUnion (stripType n) = true) :
    asked s look n = (unionLeaves n).map (.part look) := by
  have hleaves : unionLeaves (stripType n) = unionLeaves n := by
    rw [unionLeaves_of_isUnion h, unionLeaves_of_isUnion (by rwa [stripType_of_isUnion h]),
      stripType_of_isUnion h]
  rcases isUnion_cases h with ⟨hk, hbar⟩ | hk
  · simp only [asked, hk, hbar, if_true, hleaves]
  · simp only [asked, hk, hleaves]

theorem asked_part_fits {depth : Nat} {l : List Node} {c : Node}
    (hasked : asked s look n = l.map (.part look)) (h : fits s (depth + 1) look n = true)
    (hc : c ∈ l) : fits s depth look c = true := by
  have hmem : Request.part look c ∈ asked s look n := hasked ▸ List.mem_map_of_mem hc
  exact fits_of_asked h hmem

theorem asked_stripType (h : stripType (stripType n) = stripType n) :
    asked s look (stripType n) = asked s look n := by
  have halias : aliasAt? s look (stripType n) = aliasAt? s look n := by simp only [aliasAt?, h]
  have hguard : meetsGuard s look (stripType n) = meetsGuard s look n := by
    rw [meetsGuard, meetsGuard, halias]
  have hname : nameAsked s look (stripType n) = nameAsked s look n := by
    rw [nameAsked, nameAsked, hguard, halias]
  simp only [asked, h, hname]

theorem fits_stripType (h : stripType (stripType n) = stripType n) (depth : Nat) :
    fits s depth look (stripType n) = fits s depth look n := by
  cases depth with
  | zero => rfl
  | succ depth => rw [fits, fits, asked_stripType h]

theorem readWithin_stripType (h : stripType (stripType n) = stripType n) (depth : Nat) :
    readWithin s depth look (stripType n) = readWithin s depth look n := by
  cases depth with
  | zero => rfl
  | succ depth => simp only [readWithin, level, h]

theorem exists_succ_of_fits {depth : Nat} (h : fits s depth look n = true) :
    ∃ d, depth = d + 1 := by
  cases depth with
  | zero => simp [fits] at h
  | succ d => exact ⟨d, rfl⟩

/-! ### Opening spellings -/

section Opening

/-- The type of a node that is read in at most the given number of levels. -/
def typeWithin (s : Source) (depth : Nat) (look : Look) (n : Node) : Descriptor :=
  (readWithin s depth look n).descriptor

/-- What is open after the operands of a spelling. -/
def Part.openInto (typeOf : Node → Descriptor) (o : Opened) (p : Part) : Opened :=
  (openAllInto o (p.operands.map typeOf)).withNoneIf p.hasNone

/-- Parts that open to their operands open together to all operands. -/
theorem openAllInto_flatMap_parts {parts : List Part} {typeOf : Node → Descriptor}
    {g : Part → List Descriptor}
    (h : ∀ p ∈ parts, ∀ o, openAllInto o (g p) = p.openInto typeOf o) (o : Opened) :
    openAllInto o (parts.flatMap g) =
      (openAllInto o ((parts.flatMap Part.operands).map typeOf)).withNoneIf
        (parts.any Part.hasNone) := by
  induction parts generalizing o with
  | nil => rfl
  | cons p parts ih =>
    have hrest := ih fun q hq => h q (List.mem_cons_of_mem p hq)
    rw [List.flatMap_cons, Descriptor.openAllInto_append, h p List.mem_cons_self, hrest,
      Part.openInto, List.flatMap_cons, List.map_append, Descriptor.openAllInto_append,
      Descriptor.openAllInto_withNoneIf, List.any_cons, Opened.withNoneIf_or]

theorem typeWithin_eq_of_fits {depth limit : Nat} (h : fits s depth look n = true)
    (hle : depth ≤ limit) : typeWithin s depth look n = typeWithin s limit look n := by
  rw [typeWithin, typeWithin, readWithin_eq_of_fits h hle]

theorem typeWithin_of_isUnion (h : isUnion (stripType n) = true) (depth : Nat) :
    typeWithin s (depth + 1) look n
      = unionOf ((unionLeaves (stripType n)).map (typeWithin s depth look)) := by
  rw [typeWithin, readWithin, level_of_isUnion h]
  rfl

theorem unionLeaves_stripType (h : stripType (stripType n) = stripType n) :
    unionLeaves (stripType n) = unionLeaves n := by
  rw [unionLeaves, unionLeaves, h]

theorem openInto_unionOf_typeWithin {depth : Nat} {l : List Node} (hl : l ≠ []) (o : Opened) :
    openInto o (unionOf (l.map (typeWithin s depth look)))
      = openAllInto o (l.map (typeWithin s depth look)) := by
  refine Descriptor.openInto_unionOf (Descriptor.openAllInto_ne_empty (by simpa using hl) ?_) o
  intro d hd
  obtain ⟨c, -, rfl⟩ := List.mem_map.mp hd
  exact isCanonical_readWithin s depth look c

/-- Between bars an operand that is a union itself counts as its own operands. -/
theorem IsOperand.openAllInto_leaves (h : IsOperand n) {depth limit : Nat} (hlt : depth < limit)
    (hfits : ∀ c ∈ unionLeaves n, fits s depth look c = true) (o : Opened) :
    openAllInto o ((unionLeaves n).map (typeWithin s depth look))
      = openInto o (typeWithin s limit look n) := by
  obtain ⟨below, rfl⟩ := Nat.exists_eq_succ_of_ne_zero (Nat.ne_zero_of_lt hlt)
  cases hunion : isUnion (stripType n) with
  | true =>
    have hstrip := stripType_of_isUnion hunion
    have hleaves : (unionLeaves n).map (typeWithin s depth look)
        = (unionLeaves n).map (typeWithin s below look) :=
      List.map_congr_left fun c hc =>
        typeWithin_eq_of_fits (hfits c hc) (Nat.le_of_lt_succ hlt)
    rw [typeWithin_of_isUnion hunion, unionLeaves_stripType hstrip,
      openInto_unionOf_typeWithin h.leaves_ne, hleaves]
  | false =>
    have hstrip := stripType_stripType h.kind_ne
    rw [unionLeaves_of_not_isUnion hunion] at hfits ⊢
    have hn := hfits (stripType n) List.mem_cons_self
    have htype : typeWithin s depth look (stripType n) = typeWithin s (below + 1) look n := by
      rw [typeWithin_eq_of_fits hn (Nat.le_of_lt hlt), typeWithin, readWithin_stripType hstrip]
      rfl
    rw [List.map_cons, htype]
    rfl

theorem Spells.unionLeaves_ne (h : Spells s look n ops b) : unionLeaves n ≠ [] := by
  induction h with
  | operand h => exact h.leaves_ne
  | absent hk =>
    rw [unionLeaves_of_not_isUnion (by simp [isUnion, hk])]
    exact List.cons_ne_nil _ _
  | optional hform | union _ _ hform =>
    rw [unionLeaves_of_not_isUnion (isUnion_of_construct? hform)]
    exact List.cons_ne_nil _ _
  | bars parts hne hunion hparts h ih =>
    obtain ⟨p, rest, rfl⟩ := List.exists_cons_of_ne_nil hne
    rw [unionLeaves_of_isUnion hunion, hparts, List.map_cons, List.flatMap_cons]
    exact List.append_ne_nil_of_left_ne_nil (ih p List.mem_cons_self) _

/-- The reading of a spelling opens to the operands, and so do the readings of its leaves, which
take its place where it stands between bars. -/
structure Part.IsOpened (p : Part) (s : Source) (limit : Nat) (look : Look) : Prop where
  whole : ∀ {depth}, depth ≤ limit → fits s depth look p.node = true → ∀ o,
    Descriptor.openInto o (typeWithin s depth look p.node)
      = p.openInto (typeWithin s limit look) o
  leaves : ∀ {depth}, depth < limit → (∀ c ∈ unionLeaves p.node, fits s depth look c = true) →
    ∀ o, openAllInto o ((unionLeaves p.node).map (typeWithin s depth look))
      = p.openInto (typeWithin s limit look) o

variable {limit : Nat}

theorem isOpened_operand (h : IsOperand n) : Part.IsOpened ⟨n, [n], false⟩ s limit look where
  whole hle hfits o := by
    rw [typeWithin_eq_of_fits hfits hle]
    rfl
  leaves hlt hfits o := h.openAllInto_leaves hlt hfits o

/-- A node that is no union written with bars is its own leaf. -/
theorem Part.IsOpened.of_whole {p : Part} (hunion : isUnion (stripType p.node) = false)
    (hstrip : stripType (stripType p.node) = stripType p.node)
    (h : ∀ {depth}, depth ≤ limit → fits s depth look p.node = true → ∀ o,
      Descriptor.openInto o (typeWithin s depth look p.node)
        = p.openInto (typeWithin s limit look) o) :
    p.IsOpened s limit look where
  whole := h
  leaves {depth} hlt hfits o := by
    rw [unionLeaves_of_not_isUnion hunion] at hfits ⊢
    have hnode : fits s depth look p.node = true :=
      fits_stripType hstrip depth ▸ hfits _ List.mem_cons_self
    rw [← h (Nat.le_of_lt hlt) hnode o, List.map_cons, typeWithin, readWithin_stripType hstrip]
    rfl

theorem isOpened_absent (hk : (stripType n).kind = "none") :
    Part.IsOpened ⟨n, [], true⟩ s limit look := by
  refine .of_whole (by simp [isUnion, hk]) (stripType_stripType (by simp [hk])) ?_
  intro depth _ hfits o
  obtain ⟨below, rfl⟩ := exists_succ_of_fits hfits
  have hnone : typeWithin s (below + 1) look n = .none := by
    simp only [typeWithin, readWithin, level, hk, TypeInfo.of]
  rw [hnone, Descriptor.openInto_none]
  rfl

theorem isOpened_optional {arg : Node} (hform : construct? s look n = some (.optional, [arg]))
    (h : Part.IsOpened ⟨arg, ops, b⟩ s limit look) :
    Part.IsOpened ⟨n, ops, true⟩ s limit look := by
  refine .of_whole (isUnion_of_construct? hform) (stripType_of_construct? hform) ?_
  intro depth hle hfits o
  obtain ⟨below, rfl⟩ := exists_succ_of_fits hfits
  have harg : fits s below look arg = true :=
    asked_part_fits (asked_of_construct? hform) hfits List.mem_cons_self
  obtain ⟨last, hlevel⟩ := level_of_construct? (readWithin s below) hform
  have htype : typeWithin s (below + 1) look n = unionOf [typeWithin s below look arg, .none] := by
    rw [typeWithin, readWithin, hlevel]
    rfl
  have hcanonical : ∀ d ∈ [typeWithin s below look arg, .none], d.IsCanonical := by
    simpa using ⟨isCanonical_readWithin s below look arg, Descriptor.isCanonical_none⟩
  rw [htype, Descriptor.openInto_unionOf (Descriptor.openAllInto_ne_empty (by simp) hcanonical),
    openAllInto, openAllInto, openAllInto, h.whole (Nat.le_of_succ_le hle) harg,
    Descriptor.openInto_none]
  cases b <;> rfl

theorem isOpened_union {parts : List Part} (hne : parts ≠ [])
    (hform : construct? s look n = some (.union, parts.map Part.node))
    (h : ∀ p ∈ parts, p.IsOpened s limit look) :
    Part.IsOpened ⟨n, parts.flatMap Part.operands, parts.any Part.hasNone⟩ s limit look := by
  refine .of_whole (isUnion_of_construct? hform) (stripType_of_construct? hform) ?_
  intro depth hle hfits o
  obtain ⟨below, rfl⟩ := exists_succ_of_fits hfits
  obtain ⟨last, hlevel⟩ := level_of_construct? (readWithin s below) hform
  have htype : typeWithin s (below + 1) look n
      = unionOf ((parts.map Part.node).map (typeWithin s below look)) := by
    rw [typeWithin, readWithin, hlevel]
    rfl
  have hparts : (parts.map Part.node).map (typeWithin s below look)
      = parts.flatMap fun p => [typeWithin s below look p.node] := by
    rw [List.map_map, ← List.map_eq_flatMap]
    rfl
  rw [htype, openInto_unionOf_typeWithin (by simpa using hne), hparts]
  refine openAllInto_flatMap_parts (fun p hp o => ?_) o
  have hnode : fits s below look p.node = true :=
    asked_part_fits (asked_of_construct? hform) hfits (List.mem_map_of_mem hp)
  exact (h p hp).whole (Nat.le_of_succ_le hle) hnode o

theorem isOpened_bars {parts : List Part} (hunion : isUnion (stripType n) = true)
    (hparts : (stripType n).namedChildren = parts.map Part.node) (hleaves : unionLeaves n ≠ [])
    (h : ∀ p ∈ parts, p.IsOpened s limit look) :
    Part.IsOpened ⟨n, parts.flatMap Part.operands, parts.any Part.hasNone⟩ s limit look := by
  have hflat : unionLeaves n = parts.flatMap fun p => unionLeaves p.node := by
    rw [unionLeaves_of_isUnion hunion, hparts, List.flatMap_map]
  have hopen : ∀ {depth}, depth < limit → (∀ c ∈ unionLeaves n, fits s depth look c = true) →
      ∀ o, openAllInto o ((unionLeaves n).map (typeWithin s depth look))
        = Part.openInto (typeWithin s limit look) o
          ⟨n, parts.flatMap Part.operands, parts.any Part.hasNone⟩ := by
    intro depth hlt hfits o
    rw [hflat] at hfits ⊢
    rw [List.map_flatMap]
    refine openAllInto_flatMap_parts (fun p hp o => ?_) o
    exact (h p hp).leaves hlt (fun c hc => hfits c (List.mem_flatMap.mpr ⟨p, hp, hc⟩)) o
  refine ⟨fun {depth} hle hfits o => ?_, hopen⟩
  obtain ⟨below, rfl⟩ := exists_succ_of_fits hfits
  rw [typeWithin_of_isUnion hunion, unionLeaves_stripType (stripType_of_isUnion hunion),
    openInto_unionOf_typeWithin hleaves]
  exact hopen hle (fun c hc => asked_part_fits (asked_of_isUnion hunion) hfits hc) o

theorem Spells.isOpened (h : Spells s look n ops b) :
    Part.IsOpened ⟨n, ops, b⟩ s limit look := by
  induction h with
  | operand h => exact isOpened_operand h
  | absent hk => exact isOpened_absent hk
  | optional hform h ih => exact isOpened_optional hform ih
  | union parts hne hform h ih => exact isOpened_union hne hform ih
  | bars parts hne hunion hparts h ih =>
    exact isOpened_bars hunion hparts (Spells.bars parts hne hunion hparts h).unionLeaves_ne ih

end Opening

/-! ### The reading of a spelling -/

theorem typeWithin_of_spells {limit : Nat} (h : Spells s look n ops b) (hne : ops ≠ [])
    (hfits : fits s limit look n = true) :
    typeWithin s limit look n = if b then (unionOf (ops.map (typeWithin s limit look))).orNone
      else unionOf (ops.map (typeWithin s limit look)) := by
  have hopen := h.isOpened.whole (Nat.le_refl limit) hfits .empty
  have hcanonical : (typeWithin s limit look n).IsCanonical := isCanonical_readWithin s limit look n
  rw [IsCanonical, Descriptor.unionOf_singleton, hopen] at hcanonical
  rw [← hcanonical]
  cases b with
  | false => rfl
  | true =>
    refine Opened.close_withNone (Descriptor.openAllInto_ne_empty (by simpa using hne) ?_)
    intro d hd
    obtain ⟨c, -, rfl⟩ := List.mem_map.mp hd
    exact isCanonical_readWithin s limit look c

/-- **Spelling does not matter.** Two spellings of a union of the same operands that both come to an
end read alike: as the canonical union of the operands, optional if the absent value stands among
them. -/
theorem typeOf_eq_of_spells (h : Spells s .initial n ops b) (h' : Spells s .initial n' ops' b)
    (hsame : ops.map (typeOf s) = ops'.map (typeOf s)) (hne : ops ≠ [])
    (hfits : fits s maxDepth .initial n = true) (hfits' : fits s maxDepth .initial n' = true) :
    typeOf s n = typeOf s n' ∧
      typeOf s n = if b then (unionOf (ops.map (typeOf s))).orNone
        else unionOf (ops.map (typeOf s)) := by
  have hne' : ops' ≠ [] := fun hnil => hne (by simpa [hnil] using hsame)
  have htype := typeWithin_of_spells h hne hfits
  have htype' := typeWithin_of_spells h' hne' hfits'
  refine ⟨?_, htype⟩
  calc typeOf s n
      = _ := htype
    _ = _ := by
      change (if b then (unionOf (ops.map (typeOf s))).orNone else unionOf (ops.map (typeOf s))) = _
      rw [hsame]
      exact htype'.symm

section Spellings

open ApiSurface.Syntax (Tree)
open ApiSurface.Syntax.ParseTree

/-- One union in two spellings. -/
def spellingsTree : Tree := Tree.lower "a: Optional[Union[int, str]]\nb: int | (None | str)" <|
  rule "module" none 0 50 [
    rule "expression_statement" none 0 28 [
      rule "assignment" none 0 28 [
        rule "identifier" "left" 0 1 [],
        token ":" 1 2,
        rule "type" "type" 3 28 [
          rule "generic_type" none 3 28 [
            rule "identifier" none 3 11 [],
            rule "type_parameter" none 11 28 [
              token "[" 11 12,
              rule "type" none 12 27 [
                rule "generic_type" none 12 27 [
                  rule "identifier" none 12 17 [],
                  rule "type_parameter" none 17 27 [
                    token "[" 17 18,
                    rule "type" none 18 21 [rule "identifier" none 18 21 []],
                    token "," 21 22,
                    rule "type" none 23 26 [rule "identifier" none 23 26 []],
                    token "]" 26 27]]],
              token "]" 27 28]]]]],
    rule "expression_statement" none 29 50 [
      rule "assignment" none 29 50 [
        rule "identifier" "left" 29 30 [],
        token ":" 30 31,
        rule "type" "type" 32 50 [
          rule "binary_operator" none 32 50 [
            rule "identifier" "left" 32 35 [],
            token "|" 36 37,
            rule "parenthesized_expression" "right" 38 50 [
              token "(" 38 39,
              rule "binary_operator" none 39 49 [
                rule "none" "left" 39 43 [],
                token "|" 44 45,
                rule "identifier" "right" 46 49 []],
              token ")" 49 50]]]]]]

/-- No statement of the file binds anything. -/
def spellings : Source :=
  ⟨"spellings.py", fun _ => spellingsTree, spellingsTree, .initial spellingsTree, .builtin⟩

def spelling (i : Nat) : Node := (spellingsTree.node? i).getD default

theorem isOperand_of_kind (hk : (stripType n).kind = "identifier") : IsOperand n where
  kind_ne := by simp [hk]
  leaves_ne := by
    rw [unionLeaves_of_not_isUnion (by simp [isUnion, hk])]
    exact List.cons_ne_nil _ _

/-- `Optional[Union[int, str]]` -/
theorem spells_subscripts :
    Spells spellings .initial (spelling 5) [spelling 15, spelling 18] true := by
  have hunion : construct? spellings .initial (spelling 10)
      = some (.union, [spelling 15, spelling 18]) := by
    have hstrip : stripType (spelling 10) = spelling 11 := by with_unfolding_all rfl
    have hparts : subscriptParts (spelling 11)
        = (some (spelling 12), [spelling 15, spelling 18]) := by rfl
    rw [construct?_eq_some_iff, hstrip]
    exact ⟨by decide +kernel, _, "Union", hparts, by decide +kernel, by decide +kernel⟩
  have hoptional : construct? spellings .initial (spelling 5)
      = some (.optional, [spelling 10]) := by
    have hstrip : stripType (spelling 5) = spelling 6 := by with_unfolding_all rfl
    have hparts : subscriptParts (spelling 6) = (some (spelling 7), [spelling 10]) := by rfl
    rw [construct?_eq_some_iff, hstrip]
    exact ⟨by decide +kernel, _, "Optional", hparts, by decide +kernel, by decide +kernel⟩
  have hparts : ∀ i ∈ [15, 18], Spells spellings .initial (spelling i) [spelling i] false := by
    intro i hi
    exact .operand (isOperand_of_kind (by revert i; decide +kernel))
  refine .optional hoptional (.union [⟨spelling 15, [spelling 15], false⟩,
    ⟨spelling 18, [spelling 18], false⟩] (List.cons_ne_nil _ _) hunion ?_)
  rw [List.forall_mem_cons, List.forall_mem_singleton]
  exact ⟨hparts 15 (by decide), hparts 18 (by decide)⟩

/-- `int | (None | str)` -/
theorem spells_bars :
    Spells spellings .initial (spelling 26) [spelling 28, spelling 35] true := by
  have hparts : ∀ i ∈ [28, 35], Spells spellings .initial (spelling i) [spelling i] false := by
    intro i hi
    exact .operand (isOperand_of_kind (by revert i; decide +kernel))
  have hnone : Spells spellings .initial (spelling 33) [] true := .absent (by decide +kernel)
  have hinner : Spells spellings .initial (spelling 30) [spelling 35] true := by
    refine .bars [⟨spelling 33, [], true⟩, ⟨spelling 35, [spelling 35], false⟩]
      (List.cons_ne_nil _ _) (by decide +kernel) (by with_unfolding_all rfl) ?_
    rw [List.forall_mem_cons, List.forall_mem_singleton]
    exact ⟨hnone, hparts 35 (by decide)⟩
  refine .bars [⟨spelling 28, [spelling 28], false⟩, ⟨spelling 30, [spelling 35], true⟩]
    (List.cons_ne_nil _ _) (by decide +kernel) (by with_unfolding_all rfl) ?_
  rw [List.forall_mem_cons, List.forall_mem_singleton]
  exact ⟨hparts 28 (by decide), hinner⟩

/-- The theorem applies to both spellings of the union. -/
theorem typeOf_eq_of_spells_subscripts_bars :
    Spells spellings .initial (spelling 5) [spelling 15, spelling 18] true ∧
    Spells spellings .initial (spelling 26) [spelling 28, spelling 35] true ∧
    [spelling 15, spelling 18].map (typeOf spellings)
      = [spelling 28, spelling 35].map (typeOf spellings) ∧
    fits spellings maxDepth .initial (spelling 5) = true ∧
    fits spellings maxDepth .initial (spelling 26) = true ∧
    typeOf spellings (spelling 5) = typeOf spellings (spelling 26) ∧
    typeOf spellings (spelling 5)
      = .optional (.union [.primitive "int", .primitive "string"]) := by
  have hsame : [spelling 15, spelling 18].map (typeOf spellings)
      = [spelling 28, spelling 35].map (typeOf spellings) := by decide +kernel
  have hfits : fits spellings maxDepth .initial (spelling 5) = true := by decide +kernel
  have hfits' : fits spellings maxDepth .initial (spelling 26) = true := by decide +kernel
  obtain ⟨hbars, htype⟩ := typeOf_eq_of_spells spells_subscripts spells_bars hsame (by simp)
    hfits hfits'
  refine ⟨spells_subscripts, spells_bars, hsame, hfits, hfits', hbars, htype.trans ?_⟩
  decide +kernel

end Spellings

end ApiSurface.TypeHint
