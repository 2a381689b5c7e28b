import ApiSurface.Proofs.TypeHint.Hints
import ApiSurface.Proofs.TypeHint.UnionSpelling

/-!
# The encodings of a hint

What an annotation is read as depends on the hint that it encodes and on nothing else
(`typeWithin_of_encodes`), so two encodings of one hint are read alike
(`typeWithin_eq_of_encodes`).

The arguments of `Literal` are the one place where the source text counts. What is no literal there
is kept as it is written, parentheses included, so the encodings have to agree on that text.
-/

namespace ApiSurface.TypeHint

open ApiSurface.Syntax (Node)
open ApiSurface.Expr (Arguments stripType stripKind_of_ne stripType_of_ne stripType_of_type)
open ApiSurface.Text (compactString)

/-! ### Levels of encodings -/

variable {kept : Prop} {s s' : Source} {below : Below} {look look' : Look} {n n' c base : Node}
  {args : List Node} {hint : Hint} {depth : Nat}

theorem ofName_eq_meaningOf : ofName s below look n =
    match meaningOf s look n with
    | .path none => .unknown
    | .path (some path) => ofPath path (compactString n.text)
    | .aliased a => ofAlias below look (compactString n.text) a
    | .typeVariable => .of (.reference (compactString n.text))
    | .value => .unknown := by
  rw [ofName, meaningOf]
  generalize pathOf? s (compactString n.text) (anchorOf s look n) = path
  generalize s.table.lookupAt (compactString n.text) (anchorOf s look n).scope
    (anchorOf s look n).pos = found
  -- a dotted name is not looked up as a whole
  by_cases hdot : Text.hasDot (compactString n.text) = true
  · simp only [hdot, if_true]
    cases path <;> rfl
  · simp only [hdot, Bool.false_eq_true, if_false]
    cases found with
    | none => cases path <;> rfl
    | some bound =>
      cases bound with
      | typeAlias a => rfl
      | value v => by_cases hv : isTypeVariable v = true <;> simp only [hv] <;> rfl
      | parameter p => rfl
      | _ => cases path <;> rfl

theorem IsSubscript.kind_mem (h : IsSubscript n base args) : n.kind ∈ subscriptKinds := by
  cases h with
  | subscript hk => simp [subscriptKinds, hk]
  | generic hk => simp [subscriptKinds, hk]

/-- Both forms of a subscript have the same parts. -/
theorem IsSubscript.subscriptParts_eq (h : IsSubscript n base args) :
    subscriptParts n = (some base, args) := by
  cases h with
  | subscript hk hbase hargs => rw [subscriptParts, if_pos hk, hbase, hargs]
  | generic hk hchildren hp hargs =>
    rw [subscriptParts, if_neg (by simp [hk]), hchildren]
    simp [hp, hargs]

theorem kind_not_mem {kinds kinds' : List String} (hk : n.kind ∈ kinds)
    (h : ∀ k ∈ kinds, k ∉ kinds') : n.kind ∉ kinds' := h _ hk

theorem isUnion_eq_false_of_mem {kinds : List String} (hk : n.kind ∈ kinds)
    (hkinds : ∀ k ∈ kinds, k ∉ unionKinds) : isUnion n = false := by
  have hunion := hkinds _ hk
  simp only [unionKinds, List.mem_cons, List.not_mem_nil, or_false, not_or] at hunion
  simp [isUnion, hunion.1, hunion.2]

theorem stripType_of_not_mem (hk : n.kind ∉ wrapperKinds) : stripType n = n := by
  simp only [wrapperKinds, List.mem_cons, List.not_mem_nil, or_false, not_or] at hk
  exact stripType_of_ne hk.1 hk.2

theorem stripParens_of_not_mem (hk : n.kind ∉ wrapperKinds) : Expr.stripParens n = n := by
  simp only [wrapperKinds, List.mem_cons, List.not_mem_nil, or_false, not_or] at hk
  exact stripKind_of_ne hk.2

theorem level_of_not_mem (hk : n.kind ∉ wrapperKinds) (hread : n.kind ∉ readKinds)
    (hunion : isUnion n = false) : level s below look n = .unknown := by
  have hne : ∀ k ∈ readKinds, n.kind ≠ k := fun k hmem hn => hread (hn ▸ hmem)
  rw [level, stripType_of_not_mem hk]
  split
  case h_9 hn =>
    -- of the binary operators only the bar is read
    have hbar : n.hasToken "|" = false := by simpa [isUnion, hn] using hunion
    simp [hbar]
  case h_12 => rfl
  all_goals
    next hn => exact absurd hn (hne _ (by decide))

/-- Only literals, names and strings have literal values. -/
theorem literalValue?_eq_none (hk : n.kind ∉ wrapperKinds)
    (hne : n.kind ∉ "none" :: "identifier" :: "attribute" :: stringKinds ++ literalKinds) :
    Expr.literalValue? n = none := by
  rw [Expr.literalValue?, stripParens_of_not_mem hk]
  split
  case h_11 => rfl
  all_goals
    next hn => simp [hn, stringKinds, literalKinds] at hne

/-- A name counts with its text. -/
theorem literalValue?_of_name (hk : n.kind ∈ nameKinds) :
    (Expr.literalValue? n).getD (.other n.text) = .other n.text := by
  simp only [nameKinds, List.mem_cons, List.not_mem_nil, or_false] at hk
  have hself : Expr.stripParens n = n :=
    stripKind_of_ne (by rcases hk with hk | hk | hk <;> simp [hk])
  rcases hk with hk | hk | hk <;> simp [Expr.literalValue?, hself, hk]

theorem literalValue?_of_string (hk : n.kind ∈ stringKinds) :
    Expr.literalValue? n = (Expr.stringLiteral? n).map .str := by
  simp only [stringKinds, List.mem_cons, List.not_mem_nil, or_false] at hk
  have hself : Expr.stripParens n = n := stripKind_of_ne (by rcases hk with hk | hk <;> simp [hk])
  rcases hk with hk | hk <;> simp [Expr.literalValue?, hself, hk]

/-! ### Readings of encodings -/

/-- The node is read as the hint. -/
structure ReadsAs (s : Source) (look : Look) (n : Node) (h : Hint) : Prop where
  shape : shapeOf (stripType n).kind = h.shape
  literal : literalOf n = h.literal?.getD (.other (stripType n).text)
  type : ∀ depth, typeWithin s depth look n = h.typeWithin depth
  /-- Between bars the operands of the node take its place. -/
  operands : ∀ depth,
    (unionLeaves n).map (typeWithin s depth look) = h.operands.map (Hint.typeWithin depth)
  /-- Where parameters are listed, the items of the node are read. -/
  items : (stripType n).kind = "list" → ∀ depth,
    (stripType n).namedChildren.map (typeWithin s depth look)
      = h.items.map (Hint.typeWithin depth)

theorem readWithin_congr_stripType (h : stripType n = stripType c) (depth : Nat) :
    readWithin s depth look n = readWithin s depth look c := by
  cases depth with
  | zero => rfl
  | succ depth => simp only [readWithin, level, h]

/-- What stands around a node does not count. -/
theorem ReadsAs.of_stripType (hstrip : stripType n = stripType c) (h : ReadsAs s look c hint) :
    ReadsAs s look n hint where
  shape := hstrip ▸ h.shape
  literal := by
    rw [literalOf, hstrip]
    exact h.literal
  type depth := by
    rw [typeWithin, readWithin_congr_stripType hstrip]
    exact h.type depth
  operands depth := by
    rw [unionLeaves, hstrip, ← unionLeaves]
    exact h.operands depth
  items := hstrip ▸ h.items

/-- A node without wrappers that is no union is read in one level, and it is its own operand. -/
theorem ReadsAs.of_level (hk : n.kind ∉ wrapperKinds) (hunion : isUnion n = false)
    (hoperands : hint.operands = [hint]) (hshape : shapeOf n.kind = hint.shape)
    (hliteral : (Expr.literalValue? n).getD (.other n.text) = hint.literal?.getD (.other n.text))
    (hitems : n.kind = "list" → ∀ depth,
      n.namedChildren.map (typeWithin s depth look) = hint.items.map (Hint.typeWithin depth))
    (hlevel : ∀ depth,
      (level s (readWithin s depth) look n).descriptor = hint.level (Hint.typeWithin depth)) :
    ReadsAs s look n hint := by
  have hstrip : stripType n = n := stripType_of_not_mem hk
  have htype : ∀ depth, typeWithin s depth look n = hint.typeWithin depth := by
    intro depth
    cases depth with
    | zero => rfl
    | succ depth => exact hlevel depth
  refine ⟨by rw [hstrip, hshape], by rw [literalOf, hstrip, hliteral], htype, fun depth => ?_,
    by rwa [hstrip]⟩
  rw [unionLeaves_of_not_isUnion (by rwa [hstrip]), hstrip, hoperands, List.map_singleton,
    List.map_singleton, htype]

/-! ### Constructs -/

section Constructs

variable {parts : List (Node × String × Hint)}

theorem shapeOf_eq_list_iff {kind : String} : shapeOf kind = .list ↔ kind = "list" := by
  grind [shapeOf]

theorem shapeOf_eq_tuple_iff {kind : String} : shapeOf kind = .tuple ↔ kind = "tuple" := by
  grind [shapeOf]

theorem shapeOf_eq_ellipsis_iff {kind : String} :
    shapeOf kind = .ellipsis ↔ kind = "ellipsis" := by
  grind [shapeOf]

theorem argument_of_readsAs (h : ∀ p ∈ parts, ReadsAs s look p.1 p.2.2) (i : Nat) :
    argument (readWithin s depth) look (parts.map Prod.fst) i
      = Hint.argument (Hint.typeWithin depth) (parts.map Prod.snd) i := by
  rw [argument, Hint.argument, List.getElem?_map, List.getElem?_map]
  cases hp : parts[i]? with
  | none => rfl
  | some p => exact (h p (List.mem_of_getElem? hp)).type depth

theorem descriptors_of_readsAs (h : ∀ p ∈ parts, ReadsAs s look p.1 p.2.2) :
    descriptors (readWithin s depth) look (parts.map Prod.fst)
      = Hint.arguments (Hint.typeWithin depth) (parts.map Prod.snd) := by
  rw [descriptors, Hint.arguments, List.map_map, List.map_map]
  exact List.map_congr_left fun p hp => (h p hp).type depth

theorem ofTuple_of_readsAs (h : ∀ p ∈ parts, ReadsAs s look p.1 p.2.2) :
    ofTuple (readWithin s depth) look (parts.map Prod.fst)
      = Hint.tupleType (Hint.typeWithin depth) (parts.map Prod.snd) := by
  have hall : descriptors (readWithin s depth) look (parts.map Prod.fst)
      = Hint.arguments (Hint.typeWithin depth) (parts.map Prod.snd) := descriptors_of_readsAs h
  match parts with
  | [] => rfl
  | [only] =>
    have hshape : (stripType only.1).kind = "tuple" ↔ only.2.2.shape = .tuple := by
      rw [← (h only List.mem_cons_self).shape, shapeOf_eq_tuple_iff]
    simp only [List.map_cons, List.map_nil, ofTuple, Hint.tupleType, hshape] at hall ⊢
    rw [hall]
  | [first, second] =>
    have hshape : (stripType second.1).kind = "ellipsis" ↔ second.2.2.shape = .ellipsis := by
      rw [← (h second (by simp)).shape, shapeOf_eq_ellipsis_iff]
    have hfirst := (h first List.mem_cons_self).type depth
    simp only [List.map_cons, List.map_nil, ofTuple, Hint.tupleType, hshape] at hall ⊢
    rw [hall, descriptors, List.map_singleton]
    rw [typeWithin] at hfirst
    rw [hfirst]
  | _ :: _ :: _ :: _ => exact congrArg (Descriptor.tuple · false) hall

theorem ofCallable_of_readsAs (h : ∀ p ∈ parts, ReadsAs s look p.1 p.2.2) :
    ofCallable (readWithin s depth) look (parts.map Prod.fst)
      = Hint.callableType (Hint.typeWithin depth) (parts.map Prod.snd) := by
  rw [ofCallable, Hint.callableType, argument_of_readsAs h]
  cases parts with
  | nil => rfl
  | cons first parts =>
    have hfirst := h first List.mem_cons_self
    have hshape : (stripType first.1).kind = "list" ↔ first.2.2.shape = .list := by
      rw [← hfirst.shape, shapeOf_eq_list_iff]
    simp only [List.map_cons, List.head?_cons, Option.map_some, hshape]
    split
    · next hlist => rw [← hfirst.items (hshape.mpr hlist) depth]; rfl
    · rfl

theorem ofForm_of_readsAs (form : Form) (last : String)
    (h : ∀ p ∈ parts, ReadsAs s look p.1 p.2.2)
    (htext : form = .literal → ∀ p ∈ parts, p.2.2.literal? = none →
      (stripType p.1).text = p.2.1) :
    (ofForm (readWithin s depth) look form last (parts.map Prod.fst)).descriptor
      = Hint.formType (Hint.typeWithin depth) (parts.map Prod.snd) form := by
  cases form with
  | list | set | dict | optional | type =>
    simp only [ofForm, Hint.formType, TypeInfo.of, argument_of_readsAs h]
  | union => simp only [ofForm, Hint.formType, TypeInfo.of, descriptors_of_readsAs h]
  | tuple => exact ofTuple_of_readsAs h
  | callable => exact ofCallable_of_readsAs h
  | literal =>
    refine congrArg Descriptor.literal ?_
    rw [List.map_map, List.map_map]
    refine List.map_congr_left fun p hp => ?_
    have hliteral := (h p hp).literal
    rw [Function.comp_apply, hliteral, Function.comp_apply]
    cases hv : p.2.2.literal? with
    -- what is no literal counts with its text, on which encodings agree
    | none => rw [htext rfl p hp hv]
    | some v => rfl
  | annotated | qualifier =>
    cases parts with
    | nil => rfl
    | cons first parts => exact (h first List.mem_cons_self).type depth

end Constructs

/-! ### The reading of an encoding -/

theorem shapeOf_eq_plain (hk : n.kind ∉ shapedKinds) : shapeOf n.kind = .plain := by
  simp only [shapedKinds, List.mem_cons, List.not_mem_nil, or_false, not_or] at hk
  rw [shapeOf, if_neg hk.1, if_neg hk.2.1, if_neg hk.2.2]

/-- A node without wrappers that the constructs do not tell apart. -/
theorem ReadsAs.of_plain {kinds : List String} (hk : n.kind ∈ kinds)
    (hplain : ∀ k ∈ kinds, k ∉ wrapperKinds ∧ k ∉ shapedKinds ∧ k ∉ unionKinds)
    (hoperands : hint.operands = [hint]) (hshape : hint.shape = .plain)
    (hliteral : (Expr.literalValue? n).getD (.other n.text) = hint.literal?.getD (.other n.text))
    (hlevel : ∀ depth,
      (level s (readWithin s depth) look n).descriptor = hint.level (Hint.typeWithin depth)) :
    ReadsAs s look n hint := by
  obtain ⟨hwrapper, hshaped, -⟩ := hplain _ hk
  refine .of_level hwrapper (isUnion_eq_false_of_mem hk fun k hk => (hplain k hk).2.2) hoperands
    ((shapeOf_eq_plain hshaped).trans hshape.symm) hliteral (fun hlist => ?_) hlevel
  exact absurd (hlist ▸ List.mem_cons_self) hshaped

theorem readsAs_name (hk : n.kind ∈ nameKinds) (hoperands : hint.operands = [hint])
    (hshape : hint.shape = .plain) (hliteral : hint.literal? = none)
    (hlevel : ∀ depth,
      (ofName s (readWithin s depth) look n).descriptor = hint.level (Hint.typeWithin depth)) :
    ReadsAs s look n hint := by
  refine .of_plain hk (by decide) hoperands hshape ?_ fun depth => ?_
  · rw [literalValue?_of_name hk, hliteral]
    rfl
  · have hself : stripType n = n := stripType_of_not_mem (kind_not_mem hk (by decide))
    rw [level_of_mem_nameKinds (by rwa [hself]), hself]
    exact hlevel depth

theorem readsAs_string {text : Option String} (hk : n.kind ∈ stringKinds)
    (htext : Expr.stringLiteral? n = text) (hoperands : hint.operands = [hint])
    (hshape : hint.shape = .plain) (hliteral : hint.literal? = text.map .str)
    (hlevel : ∀ depth,
      (ofQuoted s (readWithin s depth) look n).descriptor = hint.level (Hint.typeWithin depth)) :
    ReadsAs s look n hint := by
  refine .of_plain hk (by decide) hoperands hshape ?_ fun depth => ?_
  · rw [literalValue?_of_string hk, htext, hliteral]
  · have hself : stripType n = n := stripType_of_not_mem (kind_not_mem hk (by decide))
    rw [level_of_mem_stringKinds (by rwa [hself]), hself]
    exact hlevel depth

/-- A node that is not read has the unknown type. -/
theorem readsAs_unread (hk : n.kind ∉ wrapperKinds) (hread : n.kind ∉ readKinds)
    (hunion : isUnion n = false) (hoperands : hint.operands = [hint])
    (hshape : shapeOf n.kind = hint.shape) (hliteral : Expr.literalValue? n = hint.literal?)
    (hitems : n.kind = "list" → ∀ depth,
      n.namedChildren.map (typeWithin s depth look) = hint.items.map (Hint.typeWithin depth))
    (hunknown : ∀ depth, hint.level (Hint.typeWithin depth) = .unknown) :
    ReadsAs s look n hint := by
  refine .of_level hk hunion hoperands hshape (by rw [hliteral]) hitems fun depth => ?_
  rw [level_of_not_mem hk hread hunion, hunknown]
  rfl

theorem readsAs_shaped (hk : n.kind ∈ shapedKinds) (hoperands : hint.operands = [hint])
    (hshape : shapeOf n.kind = hint.shape) (hliteral : hint.literal? = none)
    (hitems : n.kind = "list" → ∀ depth,
      n.namedChildren.map (typeWithin s depth look) = hint.items.map (Hint.typeWithin depth))
    (hunknown : ∀ depth, hint.level (Hint.typeWithin depth) = .unknown) :
    ReadsAs s look n hint := by
  have hwrapper : n.kind ∉ wrapperKinds := kind_not_mem hk (by decide)
  refine readsAs_unread hwrapper (kind_not_mem hk (by decide))
    (isUnion_eq_false_of_mem hk (by decide)) hoperands hshape ?_ hitems hunknown
  rw [hliteral, literalValue?_eq_none hwrapper (kind_not_mem hk (by decide))]

theorem readsAs_subscript {parts : List (Node × String × Hint)} {path : Option String}
    (hform : IsSubscript n base (parts.map Prod.fst))
    (hpath : pathOf? s (compactString base.text) (anchorOf s look base) = path)
    (htext : path.bind form? = some .literal →
      ∀ p ∈ parts, p.2.2.literal? = none → (stripType p.1).text = p.2.1)
    (h : ∀ p ∈ parts, ReadsAs s look p.1 p.2.2) :
    ReadsAs s look n (.subscript (compactString base.text) path (parts.map Prod.snd)) := by
  have hk := hform.kind_mem
  have hwrapper : n.kind ∉ wrapperKinds := kind_not_mem hk (by decide)
  have hself : stripType n = n := stripType_of_not_mem hwrapper
  refine .of_plain hk (by decide) rfl rfl ?_ fun depth => ?_
  · rw [literalValue?_eq_none hwrapper (kind_not_mem hk (by decide))]
    rfl
  · rw [level_of_mem_subscriptKinds (by rwa [hself]), hself, ofSubscript, hform.subscriptParts_eq]
    simp only [hpath]
    cases path with
    | none => rfl
    | some path =>
      simp only [Hint.level, Option.elim_some, Hint.subscriptType]
      cases hfound : form? path with
      | none => exact congrArg (Descriptor.generic _) (descriptors_of_readsAs h)
      | some form =>
        exact ofForm_of_readsAs form _ h fun hliteral =>
          htext (by rw [Option.bind_some, hfound, hliteral])

theorem readsAs_bar {l r : Node} {left right : Hint} (hunion : isUnion n = true)
    (hoperands : n.namedChildren = [l, r]) (hl : ReadsAs s look l left)
    (hr : ReadsAs s look r right) : ReadsAs s look n (.bar left right) := by
  have hk : n.kind ∈ unionKinds := by
    rcases isUnion_cases hunion with ⟨hk, -⟩ | hk <;> simp [unionKinds, hk]
  have hwrapper : n.kind ∉ wrapperKinds := kind_not_mem hk (by decide)
  have hshaped : n.kind ∉ shapedKinds := kind_not_mem hk (by decide)
  have hself : stripType n = n := stripType_of_not_mem hwrapper
  -- the operands on the right follow those on the left
  have hleaves : ∀ depth, (unionLeaves n).map (typeWithin s depth look)
      = (Hint.bar left right).operands.map (Hint.typeWithin depth) := by
    intro depth
    rw [unionLeaves_of_isUnion (by rwa [hself]), hself, hoperands, List.flatMap_cons,
      List.flatMap_singleton, List.map_append, hl.operands, hr.operands, ← List.map_append]
    rfl
  refine ⟨?_, ?_, fun depth => ?_, hleaves, fun hlist => ?_⟩
  · rw [hself]
    exact shapeOf_eq_plain hshaped
  · rw [literalOf, hself, literalValue?_eq_none hwrapper (kind_not_mem hk (by decide))]
    rfl
  · cases depth with
    | zero => rfl
    | succ depth =>
      rw [typeWithin_of_isUnion (by rwa [hself]), hself, hleaves]
      rfl
  · rw [hself] at hlist
    exact absurd (hlist ▸ List.mem_cons_self) hshaped

theorem readsAs_call {function : Node} {item : Option (Node × Hint)} {path : Option String}
    (hk : n.kind = "call") (hfunction : n.childByField? "function" = some function)
    (hpath : pathOf? s (compactString function.text) (anchorOf s look function) = path)
    (hitem : (Arguments.ofCall n).get? 0 "item_type" = item.map Prod.fst)
    (h : ∀ p ∈ item, ReadsAs s look p.1 p.2) :
    ReadsAs s look n (.call (compactString function.text) path (item.map Prod.snd)) := by
  have hcall : n.kind ∈ ["call"] := by simp [hk]
  have hwrapper : n.kind ∉ wrapperKinds := kind_not_mem hcall (by decide)
  have hitemType : ∀ depth, itemType (readWithin s depth) look n
      = (item.map Prod.snd).elim missing (Hint.typeWithin depth) := by
    intro depth
    rw [itemType, hitem]
    cases item with
    | none => rfl
    | some p => exact (h p rfl).type depth
  refine .of_plain hcall (by decide) rfl rfl ?_ fun depth => ?_
  · rw [literalValue?_eq_none hwrapper (kind_not_mem hcall (by decide))]
    rfl
  · simp only [level, stripType_of_not_mem hwrapper, hk, ofCall, hfunction, hpath, Hint.level]
    cases path.bind constrainedType? with
    | none => rfl
    | some kind => cases kind <;> simp [ofConstrained, Hint.callType, hitemType]

/-- Every encoding is read as its hint. Where texts are kept, so are the arguments of `Literal`. -/
theorem Encodes.readsAs (hkept : kept) (h : Encodes kept s look n hint) :
    ReadsAs s look n hint := by
  -- the induction is on the encoding, and each part is read in the circumstances it stands in
  induction h with
  | typed hk hinner hc ih => exact ih.of_stripType (stripType_of_type hk hinner)
  | parens hk hinner hne hc ih => exact ih.of_stripType (Expr.stripType_of_parens hk hne hinner)
  | @absent look n hk =>
    have hnone : n.kind ∈ ["none"] := by simp [hk]
    have hwrapper : n.kind ∉ wrapperKinds := kind_not_mem hnone (by decide)
    refine .of_plain hnone (by decide) rfl rfl ?_ fun depth => ?_
    · simp [Expr.literalValue?, stripParens_of_not_mem hwrapper, hk, Hint.literal?]
    · simp [level, stripType_of_not_mem hwrapper, hk, Hint.level, TypeInfo.of]
  | @name look n written path hk hwritten hmeaning =>
    refine readsAs_name hk rfl rfl rfl fun depth => ?_
    rw [ofName_eq_meaningOf, hmeaning, hwritten]
    cases path <;> rfl
  | typeVariable hk hwritten hmeaning =>
    refine readsAs_name hk rfl rfl rfl fun depth => ?_
    rw [ofName_eq_meaningOf, hmeaning, hwritten]
    rfl
  | value hk hwritten hmeaning =>
    refine readsAs_name hk rfl rfl rfl fun depth => ?_
    rw [ofName_eq_meaningOf, hmeaning]
    rfl
  | aliased hk hwritten hmeaning hnew htarget ih =>
    refine readsAs_name hk rfl rfl rfl fun depth => ?_
    rw [ofName_eq_meaningOf, hmeaning]
    simp only [ofAlias, List.contains_iff_mem, if_neg hnew]
    exact ih.type depth
  | recurring hk hwritten hmeaning hvisiting =>
    refine readsAs_name hk rfl rfl rfl fun depth => ?_
    rw [ofName_eq_meaningOf, hmeaning]
    simp only [ofAlias, List.contains_iff_mem, if_pos hvisiting]
    rfl
  | literal hk hvalue =>
    exact readsAs_unread (kind_not_mem hk (by decide)) (kind_not_mem hk (by decide))
      (isUnion_eq_false_of_mem hk (by decide)) rfl (shapeOf_eq_plain (kind_not_mem hk (by decide)))
      hvalue (fun hlist => absurd (hlist ▸ hk) (by decide)) fun _ => rfl
  | quoted hk htext hexpr hread hcontent ih =>
    refine readsAs_string hk htext rfl rfl rfl fun depth => ?_
    simp only [ofQuoted, htext, hexpr, hread, Bool.false_eq_true, if_false]
    exact ih.type depth
  | @unreadable look n text hk htext hunread =>
    refine readsAs_string hk htext rfl rfl rfl fun depth => ?_
    rw [ofQuoted, htext]
    cases text with
    | none => rfl
    | some t =>
      rcases hunread t rfl with hnone | herrors
      · simp only [hnone]
        rfl
      · simp only [herrors]
        cases quotedExpr? (s.parse (Text.trimString t)) <;> rfl
  | subscript parts hform hwritten hpath hparts htext ih =>
    subst hwritten
    exact readsAs_subscript hform hpath (htext hkept) ih
  | bar hunion hoperands hl hr ihl ihr => exact readsAs_bar hunion hoperands ihl ihr
  | call item hk hfunction hwritten hpath hitem hparts ih =>
    subst hwritten
    exact readsAs_call hk hfunction hpath hitem ih
  | @list look n parts hk hitems hparts ih =>
    refine readsAs_shaped (by simp [shapedKinds, hk]) rfl (by rw [hk]; rfl) rfl
      (fun _ depth => ?_) fun _ => rfl
    rw [hitems, Hint.items, List.map_map, List.map_map]
    exact List.map_congr_left fun p hp => (ih p hp).type depth
  | tuple hk =>
    exact readsAs_shaped (by simp [shapedKinds, hk]) rfl (by rw [hk]; rfl) rfl
      (fun hlist => by simp [hk] at hlist) fun _ => rfl
  | ellipsis hk =>
    exact readsAs_shaped (by simp [shapedKinds, hk]) rfl (by rw [hk]; rfl) rfl
      (fun hlist => by simp [hk] at hlist) fun _ => rfl
  | @other look n hk hunion =>
    have hnot : ∀ kinds : List String, (∀ k ∈ kinds, k ∈ knownKinds) → n.kind ∉ kinds :=
      fun kinds hkinds hmem => hk (hkinds _ hmem)
    have hwrapper : n.kind ∉ wrapperKinds := hnot _ (by decide)
    have hshaped : n.kind ∉ shapedKinds := hnot _ (by decide)
    refine readsAs_unread hwrapper (hnot _ (by decide)) hunion rfl (shapeOf_eq_plain hshaped)
      (literalValue?_eq_none hwrapper (hnot _ (by decide))) (fun hlist => ?_) fun _ => rfl
    exact absurd (hlist ▸ List.mem_cons_self) hshaped

/-- What an annotation is read as is the meaning of the hint. -/
theorem typeWithin_of_encodes (h : Encodes True s look n hint) (depth : Nat) :
    typeWithin s depth look n = hint.typeWithin depth :=
  (h.readsAs trivial).type depth

/-- **Grammar forms do not matter.** Two encodings of one hint are read alike, as what the hint
means, whichever forms the grammar has chosen in them, in whichever files they stand and at
whichever depth they are read. -/
theorem typeWithin_eq_of_encodes (h : Encodes True s look n hint)
    (h' : Encodes True s' look' n' hint) (depth : Nat) :
    typeWithin s depth look n = typeWithin s' depth look' n' ∧
      typeWithin s depth look n = hint.typeWithin depth := by
  have hmeant := typeWithin_of_encodes h depth
  refine ⟨?_, hmeant⟩
  calc typeWithin s depth look n
      = hint.typeWithin depth := hmeant
    _ = typeWithin s' depth look' n' := (typeWithin_of_encodes h' depth).symm

section Hinted

open ApiSurface.Syntax (Tree)
open ApiSurface.Syntax.ParseTree

/-- Two encodings of one hint, and two that differ by the parentheses inside `Literal`. -/
def hintedTree : Tree := Tree.lower
    ("a: Dict[str, list[int] | None]\nDict[(str), list[int] | (None)]\n" ++
      "b: Literal[Literal[1]]\nc: Literal[Literal[(1)]]") <|
  rule "module" none 0 110 [
    rule "expression_statement" none 0 30 [
      rule "assignment" none 0 30 [
        rule "identifier" "left" 0 1 [],
        token ":" 1 2,
        rule "type" "type" 3 30 [
          rule "generic_type" none 3 30 [
            rule "identifier" none 3 7 [],
            rule "type_parameter" none 7 30 [
              token "[" 7 8,
              rule "type" none 8 11 [rule "identifier" none 8 11 []],
              token "," 11 12,
              rule "type" none 13 29 [
                rule "union_type" none 13 29 [
                  rule "type" none 13 22 [
                    rule "generic_type" none 13 22 [
                      rule "identifier" none 13 17 [],
                      rule "type_parameter" none 17 22 [
                        token "[" 17 18,
                        rule "type" none 18 21 [rule "identifier" none 18 21 []],
                        token "]" 21 22]]],
                  token "|" 23 24,
                  rule "type" none 25 29 [rule "none" none 25 29 []]]],
              token "]" 29 30]]]]],
    rule "expression_statement" none 31 62 [
      rule "subscript" none 31 62 [
        rule "identifier" "value" 31 35 [],
        token "[" 35 36,
        rule "parenthesized_expression" "subscript" 36 41 [
          token "(" 36 37,
          rule "identifier" none 37 40 [],
          token ")" 40 41],
        token "," 41 42,
        rule "binary_operator" "subscript" 43 61 [
          rule "subscript" "left" 43 52 [
            rule "identifier" "value" 43 47 [],
            token "[" 47 48,
            rule "identifier" "subscript" 48 51 [],
            token "]" 51 52],
          token "|" 53 54,
          rule "parenthesized_expression" "right" 55 61 [
            token "(" 55 56,
            rule "none" none 56 60 [],
            token ")" 60 61]],
        token "]" 61 62]],
    rule "expression_statement" none 63 85 [
      rule "assignment" none 63 85 [
        rule "identifier" "left" 63 64 [],
        token ":" 64 65,
        rule "type" "type" 66 85 [
          rule "generic_type" none 66 85 [
            rule "identifier" none 66 73 [],
            rule "type_parameter" none 73 85 [
              token "[" 73 74,
              rule "type" none 74 84 [
                rule "generic_type" none 74 84 [
                  rule "identifier" none 74 81 [],
                  rule "type_parameter" none 81 84 [
                    token "[" 81 82,
                    rule "type" none 82 83 [rule "integer" none 82 83 []],
                    token "]" 83 84]]],
              token "]" 84 85]]]]],
    rule "expression_statement" none 86 110 [
      rule "assignment" none 86 110 [
        rule "identifier" "left" 86 87 [],
        token ":" 87 88,
        rule "type" "type" 89 110 [
          rule "generic_type" none 89 110 [
            rule "identifier" none 89 96 [],
            rule "type_parameter" none 96 110 [
              token "[" 96 97,
              rule "type" none 97 109 [
                rule "generic_type" none 97 109 [
                  rule "identifier" none 97 104 [],
                  rule "type_parameter" none 104 109 [
                    token "[" 104 105,
                    rule "type" none 105 108 [
                      rule "parenthesized_expression" none 105 108 [
                        token "(" 105 106,
                        rule "integer" none 106 107 [],
                        token ")" 107 108]],
                    token "]" 108 109]]],
              token "]" 109 110]]]]]]

/-- No statement of the file binds anything. -/
def hinted : Source :=
  ⟨"hinted.py", fun _ => hintedTree, hintedTree, .initial hintedTree, .builtin⟩

def hintedNode (i : Nat) : Node := (hintedTree.node? i).getD default

/-- `list[int]` -/
def listHint : Hint := .subscript "list" (some "list") [("", .name "int" (some "int"))]

/-- `Dict[str, list[int] | None]` -/
def mapHint : Hint :=
  .subscript "Dict" (some "Dict") [("", .name "str" (some "str")), ("", .bar listHint .absent)]

/-- `Literal[1]` -/
def literalHint : Hint := .subscript "Literal" (some "Literal") [("", .literal (.int 1))]

/-- `Literal[Literal[1]]` -/
def nestedHint : Hint := .subscript "Literal" (some "Literal") [("", literalHint)]

theorem encodes_builtin {written : String} {i : Nat} (hk : (hintedNode i).kind = "identifier")
    (hwritten : compactString (hintedNode i).text = written) (hdot : Text.hasDot written = false)
    (hfound : (hinted.table.lookupAt written
      (anchorOf hinted .initial (hintedNode i)).scope
      (anchorOf hinted .initial (hintedNode i)).pos).isNone = true)
    (hpath : pathOf? hinted written (anchorOf hinted .initial (hintedNode i)) = some written) :
    Encodes kept hinted .initial (hintedNode i) (.name written (some written)) := by
  refine .name (by simp [hk, nameKinds]) hwritten ?_
  rw [meaningOf, hwritten, Option.isNone_iff_eq_none.mp hfound]
  simp [hdot, hpath]

/-- A construct or a class with one argument, whose text does not count. -/
theorem encodes_applied {arg : Node} {written : String} {path : Option String}
    (hform : IsSubscript n base [arg]) (hwritten : compactString base.text = written)
    (hpath : pathOf? s written (anchorOf s look base) = path)
    (harg : Encodes kept s look arg hint) (htext : kept → path.bind form? ≠ some .literal) :
    Encodes kept s look n (.subscript written path [("", hint)]) :=
  .subscript [(arg, "", hint)] hform hwritten hpath (List.forall_mem_singleton.mpr harg)
    fun hkept hliteral => absurd hliteral (htext hkept)

/-- The annotation of `a`, with generic types, a union and wrappers. -/
theorem encodes_slot : Encodes True hinted .initial (hintedNode 5) mapHint := by
  have hstr : Encodes True hinted .initial (hintedNode 11) (.name "str" (some "str")) :=
    encodes_builtin (by decide +kernel) (by decide +kernel) (by decide +kernel) (by decide +kernel)
      (by decide +kernel)
  have hint : Encodes True hinted .initial (hintedNode 21) (.name "int" (some "int")) :=
    encodes_builtin (by decide +kernel) (by decide +kernel) (by decide +kernel) (by decide +kernel)
      (by decide +kernel)
  have hlistForm : IsSubscript (hintedNode 16) (hintedNode 17) [hintedNode 20] :=
    .generic (by decide +kernel) (show _ = [_, hintedNode 18] by rfl) (by decide +kernel) (by rfl)
  have hlist : Encodes True hinted .initial (hintedNode 16) listHint :=
    encodes_applied hlistForm (by decide +kernel) (by decide +kernel)
      (.typed (by decide +kernel) (by rfl) hint) (by decide +kernel)
  have hbar : Encodes True hinted .initial (hintedNode 14) (.bar listHint .absent) :=
    .bar (by decide +kernel) (show _ = [hintedNode 15, hintedNode 24] by rfl)
      (.typed (by decide +kernel) (by rfl) hlist)
      (.typed (c := hintedNode 25) (by decide +kernel) (by rfl) (.absent (by decide +kernel)))
  have hform : IsSubscript (hintedNode 6) (hintedNode 7) [hintedNode 10, hintedNode 13] :=
    .generic (by decide +kernel) (show _ = [_, hintedNode 8] by rfl) (by decide +kernel) (by rfl)
  have hmap : Encodes True hinted .initial (hintedNode 6) mapHint := by
    refine .subscript [(hintedNode 10, "", .name "str" (some "str")),
      (hintedNode 13, "", .bar listHint .absent)] hform ?_ ?_ ?_ ?_
    · decide +kernel
    · decide +kernel
    · exact List.forall_mem_cons.mpr ⟨.typed (by decide +kernel) (by rfl) hstr,
        List.forall_mem_singleton.mpr (.typed (by decide +kernel) (by rfl) hbar)⟩
    · exact fun _ hliteral => absurd hliteral (by decide +kernel)
  exact .typed (by decide +kernel) (by rfl) hmap

/-- The expression below it, with subscripts, a binary operator and parentheses. -/
theorem encodes_subscripts : Encodes True hinted .initial (hintedNode 28) mapHint := by
  have hstr : Encodes True hinted .initial (hintedNode 33) (.name "str" (some "str")) :=
    encodes_builtin (by decide +kernel) (by decide +kernel) (by decide +kernel) (by decide +kernel)
      (by decide +kernel)
  have hint : Encodes True hinted .initial (hintedNode 40) (.name "int" (some "int")) :=
    encodes_builtin (by decide +kernel) (by decide +kernel) (by decide +kernel) (by decide +kernel)
      (by decide +kernel)
  have hlistForm : IsSubscript (hintedNode 37) (hintedNode 38) [hintedNode 40] :=
    .subscript (by decide +kernel) (by rfl) (by rfl)
  have hlist : Encodes True hinted .initial (hintedNode 37) listHint :=
    encodes_applied hlistForm (by decide +kernel) (by decide +kernel) hint (by decide +kernel)
  have hbar : Encodes True hinted .initial (hintedNode 36) (.bar listHint .absent) :=
    .bar (by decide +kernel) (show _ = [hintedNode 37, hintedNode 43] by rfl) hlist
      (.parens (c := hintedNode 45) (by decide +kernel) (by rfl) (by decide +kernel)
        (.absent (by decide +kernel)))
  have hform : IsSubscript (hintedNode 28) (hintedNode 29) [hintedNode 31, hintedNode 36] :=
    .subscript (by decide +kernel) (by rfl) (by rfl)
  refine .subscript [(hintedNode 31, "", .name "str" (some "str")),
    (hintedNode 36, "", .bar listHint .absent)] hform ?_ ?_ ?_ ?_
  · decide +kernel
  · decide +kernel
  · exact List.forall_mem_cons.mpr
      ⟨.parens (by decide +kernel) (by rfl) (by decide +kernel) hstr,
        List.forall_mem_singleton.mpr hbar⟩
  · exact fun _ hliteral => absurd hliteral (by decide +kernel)

/-- The annotation and the expression are read alike. -/
theorem typeWithin_eq_of_encodes_map :
    Encodes True hinted .initial (hintedNode 5) mapHint ∧
    Encodes True hinted .initial (hintedNode 28) mapHint ∧
    typeOf hinted (hintedNode 5) = typeOf hinted (hintedNode 28) ∧
    typeOf hinted (hintedNode 5)
      = .dict (.primitive "string") (.optional (.list (.primitive "int"))) := by
  obtain ⟨hsame, hmeant⟩ := typeWithin_eq_of_encodes encodes_slot encodes_subscripts maxDepth
  have hmap : mapHint.typeWithin maxDepth
      = .dict (.primitive "string") (.optional (.list (.primitive "int"))) := by
    decide +kernel
  exact ⟨encodes_slot, encodes_subscripts, hsame, hmeant.trans hmap⟩

/-- The annotation of `b`. -/
theorem encodes_nested : Encodes False hinted .initial (hintedNode 52) nestedHint := by
  have houter : IsSubscript (hintedNode 53) (hintedNode 54) [hintedNode 57] :=
    .generic (by decide +kernel) (show _ = [_, hintedNode 55] by rfl) (by decide +kernel) (by rfl)
  have hinner : IsSubscript (hintedNode 58) (hintedNode 59) [hintedNode 62] :=
    .generic (by decide +kernel) (show _ = [_, hintedNode 60] by rfl) (by decide +kernel) (by rfl)
  have hvalue : Encodes False hinted .initial (hintedNode 62) (.literal (.int 1)) :=
    .typed (c := hintedNode 63) (by decide +kernel) (by rfl)
      (.literal (by decide +kernel) (by decide +kernel))
  have hliteral : Encodes False hinted .initial (hintedNode 58) literalHint :=
    encodes_applied hinner (by decide +kernel) (by decide +kernel) hvalue False.elim
  exact .typed (by decide +kernel) (by rfl) (encodes_applied houter (by decide +kernel)
    (by decide +kernel) (.typed (by decide +kernel) (by rfl) hliteral) False.elim)

/-- The annotation of `c`, with parentheses in its inner type. -/
theorem encodes_nested_parens : Encodes False hinted .initial (hintedNode 70) nestedHint := by
  have houter : IsSubscript (hintedNode 71) (hintedNode 72) [hintedNode 75] :=
    .generic (by decide +kernel) (show _ = [_, hintedNode 73] by rfl) (by decide +kernel) (by rfl)
  have hinner : IsSubscript (hintedNode 76) (hintedNode 77) [hintedNode 80] :=
    .generic (by decide +kernel) (show _ = [_, hintedNode 78] by rfl) (by decide +kernel) (by rfl)
  have hvalue : Encodes False hinted .initial (hintedNode 80) (.literal (.int 1)) :=
    .typed (c := hintedNode 81) (by decide +kernel) (by rfl)
      (.parens (c := hintedNode 83) (by decide +kernel) (by rfl) (by decide +kernel)
        (.literal (by decide +kernel) (by decide +kernel)))
  have hliteral : Encodes False hinted .initial (hintedNode 76) literalHint :=
    encodes_applied hinner (by decide +kernel) (by decide +kernel) hvalue False.elim
  exact .typed (by decide +kernel) (by rfl) (encodes_applied houter (by decide +kernel)
    (by decide +kernel) (.typed (by decide +kernel) (by rfl) hliteral) False.elim)

/-- With the texts left free these two encode one hint, but each is kept as it is written. -/
theorem typeOf_nested_parens_ne :
    Encodes False hinted .initial (hintedNode 52) nestedHint ∧
    Encodes False hinted .initial (hintedNode 70) nestedHint ∧
    typeOf hinted (hintedNode 52) ≠ typeOf hinted (hintedNode 70) := by
  have hplain : typeOf hinted (hintedNode 52) = .literal [.other "Literal[1]"] := by
    decide +kernel
  have hparens : typeOf hinted (hintedNode 70) = .literal [.other "Literal[(1)]"] := by
    decide +kernel
  refine ⟨encodes_nested, encodes_nested_parens, ?_⟩
  rw [hplain, hparens]
  decide

end Hinted

end ApiSurface.TypeHint
