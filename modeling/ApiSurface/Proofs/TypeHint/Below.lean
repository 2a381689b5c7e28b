import ApiSurface.Proofs.Expr.Parts
import ApiSurface.TypeHint.Normalize

/-!
# What a level reads below it

Reading one level of an annotation asks for the readings of some nodes below: arguments of a
construct, operands of a union, the expression between quotes, the target of an alias (`asked`).
Nothing else below counts (`level_congr_of_asked`).

A reading that comes to an end within a number of levels (`fits`) does not meet the guard against
deep nesting, and more levels do not change it (`readWithin_eq_of_fits`).
-/

namespace ApiSurface.TypeHint

open ApiSurface.Syntax (Node)
open ApiSurface.Expr (Arguments stripType stripType_mem_descendants)
open ApiSurface.Text (compactString)

variable {s : Source} {below below' : Below} {look look' : Look} {n m c : Node} {args : List Node}
  {a : Binding.TypeAlias}

/-! ### Kinds of annotations -/

def nameKinds : List String := ["identifier", "attribute", "member_type"]

def stringKinds : List String := ["string", "concatenated_string"]

def subscriptKinds : List String := ["subscript", "generic_type"]

def unionKinds : List String := ["binary_operator", "union_type"]

/-- The type of an annotation. -/
def typeOf (s : Source) (n : Node) : Descriptor := (normalize s n).descriptor

theorem level_of_mem_nameKinds (hk : (stripType n).kind ∈ nameKinds) :
    level s below look n = ofName s below look (stripType n) := by
  simp only [nameKinds, List.mem_cons, List.not_mem_nil, or_false] at hk
  rcases hk with hk | hk | hk <;> simp only [level, hk]

theorem level_of_mem_stringKinds (hk : (stripType n).kind ∈ stringKinds) :
    level s below look n = ofQuoted s below look (stripType n) := by
  simp only [stringKinds, List.mem_cons, List.not_mem_nil, or_false] at hk
  rcases hk with hk | hk <;> simp only [level, hk]

theorem level_of_mem_subscriptKinds (hk : (stripType n).kind ∈ subscriptKinds) :
    level s below look n = ofSubscript s below look (stripType n) := by
  simp only [subscriptKinds, List.mem_cons, List.not_mem_nil, or_false] at hk
  rcases hk with hk | hk <;> simp only [level, hk]

/-! ### Arguments of constructs -/

/-- The arguments of a tuple type that are read. -/
def tupleParts (args : List Node) : List Node :=
  match args with
  | [first, second] => if (stripType second).kind = "ellipsis" then [first] else args
  | [only] => if (stripType only).kind = "tuple" then [] else args
  | _ => args

/-- What a callable type reads: the result, and the parameters where they are listed. -/
def callableParts (args : List Node) : List Node :=
  args[1]?.toList ++
    match args.head?.map stripType with
    | some p => if p.kind = "list" then p.namedChildren else []
    | none => []

/-- What a construct reads of its arguments. -/
def formParts (form : Form) (args : List Node) : List Node :=
  match form with
  | .list | .set | .optional | .type | .annotated | .qualifier _ => args.take 1
  | .dict => args.take 2
  | .tuple => tupleParts args
  | .union => args
  | .literal => []
  | .callable => callableParts args

theorem mem_of_mem_tupleParts (h : c ∈ tupleParts args) : c ∈ args := by
  match args with
  | [] => simp [tupleParts] at h
  | [only] =>
    rw [tupleParts] at h
    split at h
    · simp at h
    · exact h
  | [first, second] =>
    rw [tupleParts] at h
    split at h
    · exact List.mem_cons.mpr (.inl (List.mem_singleton.mp h))
    · exact h
  | _ :: _ :: _ :: _ => exact h

/-- A construct reads its arguments and what is listed in them. -/
theorem mem_of_mem_formParts {form : Form} (h : c ∈ formParts form args) :
    c ∈ args ∨
      ∃ l ∈ args, (stripType l).kind = "list" ∧ c ∈ (stripType l).namedChildren := by
  cases form with
  | list | set | optional | type | annotated | qualifier | dict =>
    exact .inl (List.mem_of_mem_take h)
  | union => exact .inl h
  | literal => simp [formParts] at h
  | tuple => exact .inl (mem_of_mem_tupleParts h)
  | callable =>
    rw [formParts, callableParts, List.mem_append, Option.mem_toList] at h
    rcases h with h | h
    · exact .inl (List.mem_of_getElem? h)
    · split at h
      · next p hp =>
        obtain ⟨l, hl, rfl⟩ := Option.map_eq_some_iff.mp hp
        split at h
        · next hk => exact .inr ⟨l, List.mem_of_head? hl, hk, h⟩
        · simp at h
      · simp at h

theorem descriptors_congr (h : ∀ c ∈ args, below look c = below' look' c) :
    descriptors below look args = descriptors below' look' args :=
  List.map_congr_left fun c hc => by rw [h c hc]

theorem argument_congr {i : Nat} (h : ∀ c, args[i]? = some c → below look c = below' look' c) :
    argument below look args i = argument below' look' args i := by
  rw [argument, argument]
  split
  · next c hc => rw [h c hc]
  · rfl

theorem mem_take_of_getElem? {i k : Nat} (h : args[i]? = some c) (hk : i < k) :
    c ∈ args.take k := by
  refine List.mem_of_getElem? (i := i) ?_
  rw [List.getElem?_take, if_pos hk, h]

theorem ofTuple_congr (h : ∀ c ∈ tupleParts args, below look c = below' look' c) :
    ofTuple below look args = ofTuple below' look' args := by
  match args with
  | [] => rfl
  | [only] =>
    rw [tupleParts] at h
    simp only [ofTuple]
    split
    · rfl
    · next hk => rw [descriptors_congr (by simpa [hk] using h)]
  | [first, second] =>
    rw [tupleParts] at h
    simp only [ofTuple]
    split
    · next hk => rw [descriptors_congr (by simpa [hk] using h)]
    · next hk => rw [descriptors_congr (by simpa [hk] using h)]
  | _ :: _ :: _ :: _ =>
    rw [tupleParts] at h
    · simp only [ofTuple, descriptors_congr h]
    · simp
    · simp

theorem ofCallable_congr (h : ∀ c ∈ callableParts args, below look c = below' look' c) :
    ofCallable below look args = ofCallable below' look' args := by
  have hreturns : argument below look args 1 = argument below' look' args 1 :=
    argument_congr fun c hc => h c (by simp [callableParts, hc])
  rw [ofCallable, ofCallable, hreturns]
  split
  · next p hp =>
    split
    · next hk =>
      rw [descriptors_congr fun c hc => h c (by simp [callableParts, hp, hk, hc])]
    · rfl
  · rfl

theorem ofForm_congr (form : Form) (last : String)
    (h : ∀ c ∈ formParts form args, below look c = below' look' c) :
    ofForm below look form last args = ofForm below' look' form last args := by
  have hfirst : (∀ c ∈ args.take 1, below look c = below' look' c) →
      argument below look args 0 = argument below' look' args 0 := fun h =>
    argument_congr fun c hc => h c (mem_take_of_getElem? hc Nat.one_pos)
  cases form with
  | list => simp only [ofForm, hfirst h]
  | set => simp only [ofForm, hfirst h]
  | optional => simp only [ofForm, hfirst h]
  | type => simp only [ofForm, hfirst h]
  | dict =>
    have hkey : argument below look args 0 = argument below' look' args 0 :=
      argument_congr fun c hc => h c (mem_take_of_getElem? hc Nat.two_pos)
    have hvalue : argument below look args 1 = argument below' look' args 1 :=
      argument_congr fun c hc => h c (mem_take_of_getElem? hc Nat.one_lt_two)
    simp only [ofForm, hkey, hvalue]
  | tuple => simp only [ofForm, ofTuple_congr h]
  | union =>
    have hall : descriptors below look args = descriptors below' look' args := descriptors_congr h
    simp only [ofForm, hall]
  | literal => rfl
  | callable => simp only [ofForm, ofCallable_congr h]
  | annotated =>
    cases args with
    | nil => rfl
    | cons c args => simp only [ofForm, List.head?_cons, h c (by simp [formParts])]
  | qualifier name =>
    cases args with
    | nil => rfl
    | cons c args => simp only [ofForm, List.head?_cons, h c (by simp [formParts])]

/-! ### Aliases -/

/-- The alias that an annotation names. -/
def aliasAt? (s : Source) (look : Look) (n : Node) : Option Binding.TypeAlias :=
  let m := stripType n
  let text := compactString m.text
  if nameKinds.contains m.kind && !Text.hasDot text then
    match s.table.lookupAt text (anchorOf s look m).scope (anchorOf s look m).pos with
    | some (.typeAlias a) => some a
    | _ => none
  else none

/-- Whether the alias that an annotation names is being expanded already. -/
def meetsGuard (s : Source) (look : Look) (n : Node) : Bool :=
  (aliasAt? s look n).any fun a => look.visiting.contains a.target.id

theorem anchorOf_congr (h : look.anchor = look'.anchor) (n : Node) :
    anchorOf s look n = anchorOf s look' n := by
  rw [anchorOf, anchorOf, h]

theorem aliasAt?_congr (h : look.anchor = look'.anchor) (n : Node) :
    aliasAt? s look n = aliasAt? s look' n := by
  simp only [aliasAt?, anchorOf_congr h]

theorem aliasAt?_eq_some_iff : aliasAt? s look n = some a ↔
    (stripType n).kind ∈ nameKinds ∧ Text.hasDot (compactString (stripType n).text) = false ∧
      s.table.lookupAt (compactString (stripType n).text) (anchorOf s look (stripType n)).scope
        (anchorOf s look (stripType n)).pos = some (.typeAlias a) := by
  simp only [aliasAt?, Option.ite_none_right_eq_some, Bool.and_eq_true, Bool.not_eq_true',
    List.contains_iff_mem, and_assoc]
  refine and_congr_right fun _ => and_congr_right fun _ => ?_
  split
  · next found hfound => simp [hfound]
  · next hother => simpa using hother a

theorem ofName_of_aliasAt? (h : aliasAt? s look n = some a) :
    ofName s below look (stripType n)
      = ofAlias below look (compactString (stripType n).text) a := by
  obtain ⟨-, hdot, hfound⟩ := aliasAt?_eq_some_iff.mp h
  simp only [ofName, hdot, hfound, Bool.false_eq_true, if_false]

/-- A name that is no alias reads the same whatever is below. -/
theorem ofName_of_aliasAt?_eq_none (hk : (stripType n).kind ∈ nameKinds)
    (ha : look.anchor = look'.anchor) (h : aliasAt? s look n = none) :
    ofName s below look (stripType n) = ofName s below' look' (stripType n) := by
  simp only [ofName, anchorOf_congr ha]
  split
  · rfl
  · next hdot =>
    split
    · next found hfound =>
      rw [← anchorOf_congr ha] at hfound
      have hsome := aliasAt?_eq_some_iff.mpr ⟨hk, Bool.eq_false_iff.mpr hdot, hfound⟩
      simp [h] at hsome
    · rfl
    · rfl
    · rfl

/-! ### What is asked -/

/-- A reading that a level asks for. -/
structure Request where
  /-- The target of the alias whose expansion the reading begins. -/
  expanding : Option Nat
  anchor : Option Anchor
  node : Node

/-- The circumstances of the reading, given the aliases that are being expanded already. -/
def Request.under (r : Request) (visiting : List Nat) : Look :=
  ⟨r.expanding.toList ++ visiting, r.anchor⟩

/-- The reading of a part in the circumstances of the whole. -/
def Request.part (look : Look) (n : Node) : Request := ⟨none, look.anchor, n⟩

/-- The reading of the target of an alias. -/
def Request.target (a : Binding.TypeAlias) : Request := ⟨some a.target.id, none, a.target⟩

@[simp] theorem Request.under_part (look : Look) (n : Node) :
    (part look n).under look.visiting = look := rfl

@[simp] theorem Request.under_target (visiting : List Nat) :
    (target a).under visiting = ⟨a.target.id :: visiting, none⟩ := rfl

/-- The target of the alias that a name stands for. -/
def nameAsked (s : Source) (look : Look) (n : Node) : List Request :=
  if meetsGuard s look n then [] else (aliasAt? s look n).toList.map .target

/-- The expression between quotes, with the place where its names are looked up. -/
def quotedAsked (s : Source) (look : Look) (n : Node) : List Request :=
  match Expr.stringLiteral? n with
  | none => []
  | some text =>
    let tree := s.parse (Text.trimString text)
    match quotedExpr? tree with
    | none => []
    | some expr => if tree.hasErrors then [] else [⟨none, some (anchorOf s look n), expr⟩]

/-- What a subscript reads of its arguments. -/
def subscriptAsked (s : Source) (look : Look) (n : Node) : List Node :=
  match subscriptParts n with
  | (none, _) => []
  | (some base, args) =>
    match pathOf? s (compactString base.text) (anchorOf s look base) with
    | none => []
    | some path =>
      match form? path with
      | some form => formParts form args
      | none => args

/-- What the call of a constrained type reads of its arguments. -/
def callAsked (s : Source) (look : Look) (n : Node) : List Node :=
  match n.childByField? "function" with
  | none => []
  | some function =>
    match (pathOf? s (compactString function.text) (anchorOf s look function)).bind
      constrainedType? with
    | some .list | some .set => ((Arguments.ofCall n).get? 0 "item_type").toList
    | _ => []

/-- What one level asks for. -/
def asked (s : Source) (look : Look) (n : Node) : List Request :=
  let m := stripType n
  match m.kind with
  | "identifier" | "attribute" | "member_type" => nameAsked s look n
  | "string" | "concatenated_string" => quotedAsked s look m
  | "subscript" | "generic_type" => (subscriptAsked s look m).map (.part look)
  | "binary_operator" => if m.hasToken "|" then (unionLeaves m).map (.part look) else []
  | "union_type" => (unionLeaves m).map (.part look)
  | "call" => (callAsked s look m).map (.part look)
  | _ => []

theorem asked_of_aliasAt? (h : aliasAt? s look n = some a) (hguard : meetsGuard s look n = false) :
    asked s look n = [.target a] := by
  have hname : nameAsked s look n = [.target a] := by
    rw [nameAsked, hguard, h]
    rfl
  have hk := (aliasAt?_eq_some_iff.mp h).1
  simp only [nameKinds, List.mem_cons, List.not_mem_nil, or_false] at hk
  rcases hk with hk | hk | hk <;> simp only [asked, hk, hname]

section Congruence

theorem ofName_congr_of_asked (hk : (stripType n).kind ∈ nameKinds)
    (ha : look.anchor = look'.anchor) (hguard : meetsGuard s look n = meetsGuard s look' n)
    (h : meetsGuard s look n = false → ∀ a, aliasAt? s look n = some a →
      below ((Request.target a).under look.visiting) a.target
        = below' ((Request.target a).under look'.visiting) a.target) :
    ofName s below look (stripType n) = ofName s below' look' (stripType n) := by
  cases halias : aliasAt? s look n with
  | none => exact ofName_of_aliasAt?_eq_none hk ha halias
  | some a =>
    have halias' : aliasAt? s look' n = some a := (aliasAt?_congr ha n).symm.trans halias
    have hmeets : ∀ look, aliasAt? s look n = some a →
        meetsGuard s look n = look.visiting.contains a.target.id := fun look h => by
      rw [meetsGuard, h, Option.any_some]
    rw [ofName_of_aliasAt? halias, ofName_of_aliasAt? halias', ofAlias, ofAlias,
      ← hmeets look halias, ← hmeets look' halias', ← hguard]
    split
    · rfl
    · next hno =>
      have hbelow := h (Bool.eq_false_iff.mpr hno) a halias
      rw [Request.under_target, Request.under_target] at hbelow
      rw [hbelow]

theorem ofQuoted_congr_of_asked (ha : look.anchor = look'.anchor)
    (h : ∀ r ∈ quotedAsked s look n,
      below (r.under look.visiting) r.node = below' (r.under look'.visiting) r.node) :
    ofQuoted s below look n = ofQuoted s below' look' n := by
  rw [quotedAsked] at h
  rw [ofQuoted, ofQuoted]
  split
  · rfl
  · next text htext =>
    dsimp only
    split
    · rfl
    · next expr hexpr =>
      split
      · rfl
      · next herrors =>
        have hbelow := h ⟨none, some (anchorOf s look n), expr⟩ (by
          simp [htext, hexpr, Bool.eq_false_iff.mpr herrors])
        rw [anchorOf_congr ha] at hbelow ⊢
        exact hbelow

theorem ofSubscript_congr_of_asked (ha : look.anchor = look'.anchor)
    (h : ∀ c ∈ subscriptAsked s look n, below look c = below' look' c) :
    ofSubscript s below look n = ofSubscript s below' look' n := by
  rw [subscriptAsked] at h
  rw [ofSubscript, ofSubscript]
  split
  · rfl
  · next base args hparts =>
    simp only [hparts] at h
    simp only [anchorOf_congr ha] at h ⊢
    split
    · rfl
    · next path hpath =>
      simp only [hpath] at h
      split
      · next form hform =>
        simp only [hform] at h
        exact ofForm_congr form _ h
      · next hform =>
        simp only [hform] at h
        rw [descriptors_congr h]

theorem ofUnion_congr_of_asked (h : ∀ c ∈ unionLeaves n, below look c = below' look' c) :
    ofUnion below look n = ofUnion below' look' n := by
  rw [ofUnion, ofUnion, descriptors_congr h]

theorem ofCall_congr_of_asked (ha : look.anchor = look'.anchor)
    (h : ∀ c ∈ callAsked s look n, below look c = below' look' c) :
    ofCall s below look n = ofCall s below' look' n := by
  have hitem : (∀ c ∈ ((Arguments.ofCall n).get? 0 "item_type").toList,
      below look c = below' look' c) → itemType below look n = itemType below' look' n := by
    intro h
    rw [itemType, itemType]
    split
    · next c hc => rw [h c (by simp [hc])]
    · rfl
  rw [callAsked] at h
  rw [ofCall, ofCall]
  split
  · rfl
  · next function hfunction =>
    have hpath : pathOf? s (compactString function.text) (anchorOf s look function)
        = pathOf? s (compactString function.text) (anchorOf s look' function) := by
      rw [anchorOf_congr ha]
    simp only [hfunction] at h
    dsimp only
    rw [hpath] at h ⊢
    cases hkind : (pathOf? s (compactString function.text) (anchorOf s look' function)).bind
        constrainedType? with
    | none => rfl
    | some kind =>
      simp only [hkind] at h
      cases kind with
      | scalar name => rfl
      | list => simp only [ofConstrained, hitem h]
      | set => simp only [ofConstrained, hitem h]

/-- **Only what is asked counts.** A level reads alike when the names are looked up at the same
places, the guard says the same, and all that is asked for reads alike. -/
theorem level_congr_of_asked (ha : look.anchor = look'.anchor)
    (hguard : meetsGuard s look n = meetsGuard s look' n)
    (h : ∀ r ∈ asked s look n,
      below (r.under look.visiting) r.node = below' (r.under look'.visiting) r.node) :
    level s below look n = level s below' look' n := by
  have hname : (stripType n).kind ∈ nameKinds → asked s look n = nameAsked s look n →
      ofName s below look (stripType n) = ofName s below' look' (stripType n) := by
    intro hk hasked
    refine ofName_congr_of_asked hk ha hguard fun hno a halias => ?_
    exact h (.target a) (by simp [hasked, nameAsked, hno, halias])
  have hparts : ∀ l : List Node, asked s look n = l.map (.part look) →
      ∀ c ∈ l, below look c = below' look' c := by
    intro l hasked c hc
    have hbelow := h (.part look c) (by rw [hasked]; exact List.mem_map_of_mem hc)
    have hlook' : (Request.part look c).under look'.visiting = look' := by
      rw [Request.part, Request.under, ha]
      rfl
    rwa [Request.under_part, hlook'] at hbelow
  simp only [level]
  split
  · rfl
  · next hk => exact hname (by simp [nameKinds, hk]) (by simp only [asked, hk])
  · next hk => exact hname (by simp [nameKinds, hk]) (by simp only [asked, hk])
  · next hk => exact hname (by simp [nameKinds, hk]) (by simp only [asked, hk])
  · next hk => exact ofQuoted_congr_of_asked ha (by simpa only [asked, hk] using h)
  · next hk => exact ofQuoted_congr_of_asked ha (by simpa only [asked, hk] using h)
  · next hk => exact ofSubscript_congr_of_asked ha (hparts _ (by simp only [asked, hk]))
  · next hk => exact ofSubscript_congr_of_asked ha (hparts _ (by simp only [asked, hk]))
  · next hk =>
    split
    · next hbar => exact ofUnion_congr_of_asked (hparts _ (by simp only [asked, hk, hbar, if_true]))
    · rfl
  · next hk => exact ofUnion_congr_of_asked (hparts _ (by simp only [asked, hk]))
  · next hk => exact ofCall_congr_of_asked ha (hparts _ (by simp only [asked, hk]))
  · rfl

end Congruence

/-! ### Readings that come to an end -/

/-- The reading comes to an end within the given number of levels, so the guard against deep
nesting is not met. -/
def fits (s : Source) : Nat → Look → Node → Bool
  | 0, _, _ => false
  | depth + 1, look, n =>
    (asked s look n).all fun r => fits s depth (r.under look.visiting) r.node

theorem fits_of_asked {depth : Nat} {r : Request} (h : fits s (depth + 1) look n = true)
    (hr : r ∈ asked s look n) : fits s depth (r.under look.visiting) r.node = true :=
  List.all_eq_true.mp h r hr

/-- More levels do not change a reading that comes to an end. -/
theorem readWithin_eq_of_fits {depth depth' : Nat} (h : fits s depth look n = true)
    (hle : depth ≤ depth') : readWithin s depth' look n = readWithin s depth look n := by
  induction depth generalizing depth' look n with
  | zero => simp [fits] at h
  | succ depth ih =>
    obtain ⟨depth', rfl⟩ := Nat.exists_eq_succ_of_ne_zero (Nat.ne_zero_of_lt hle)
    exact level_congr_of_asked rfl rfl fun r hr =>
      ih (fits_of_asked h hr) (Nat.le_of_succ_le_succ hle)

end ApiSurface.TypeHint
