import Mathlib.Data.List.Chain
import ApiSurface.Expr.Template

/-!
# Pieces of string expressions

A string expression spells out a sequence of pieces, one for each part of its text and one for each
interpolated expression. What is read from it are these pieces with neighbouring literal pieces
merged and empty ones left out (`merged`). It makes no difference whether pieces are merged one by
one, string by string, or all at once (`pushAll_merged`, `merged_append_merged`), so a string, an
implicit concatenation and a part of a larger expression are read alike (`template?_eq`).
-/

namespace ApiSurface

/-- Whether the text of the piece is known. -/
def UrlSegment.isLiteral : UrlSegment → Bool
  | literal _ => true
  | slot _ => false

@[simp] theorem UrlSegment.isLiteral_literal (text : String) :
    (literal text).isLiteral = true := rfl

@[simp] theorem UrlSegment.isLiteral_slot (expr : String) : (slot expr).isLiteral = false := rfl

/-- The text of a literal piece, the expression of a slot. -/
def UrlSegment.text : UrlSegment → String
  | literal text => text
  | slot expr => expr

namespace Expr

open ApiSurface.Syntax (Node)

variable {text : String} {l : List UrlSegment}

/-! ### Merging -/

/-- Literal text in front of merged pieces. -/
def prependLiteral (text : String) : List UrlSegment → List UrlSegment
  | .literal next :: r => .literal (text ++ next) :: r
  | r => if text = "" then r else .literal text :: r

/-- The pieces with neighbouring literal pieces merged and empty ones left out. -/
def merged : List UrlSegment → List UrlSegment
  | [] => []
  | .literal text :: r => prependLiteral text (merged r)
  | .slot expr :: r => .slot expr :: merged r

/-- No literal piece is empty, and no two of them are neighbours. -/
structure IsMerged (l : List UrlSegment) : Prop where
  literal_ne : ∀ text, .literal text ∈ l → text ≠ ""
  apart : l.IsChain fun a b => a.isLiteral = true → b.isLiteral = false

theorem IsMerged.nil : IsMerged [] := ⟨by simp, .nil⟩

theorem IsMerged.slot_cons (h : IsMerged l) (expr : String) : IsMerged (.slot expr :: l) where
  literal_ne text hmem := h.literal_ne text (by simpa using hmem)
  apart := List.isChain_cons.mpr ⟨by simp, h.apart⟩

theorem IsMerged.literal_cons (h : IsMerged l) (hne : text ≠ "")
    (hfirst : ∀ p ∈ l.head?, p.isLiteral = false) : IsMerged (.literal text :: l) where
  literal_ne other hmem := by
    rcases List.mem_cons.mp hmem with heq | hmem
    · rwa [UrlSegment.literal.inj heq]
    · exact h.literal_ne other hmem
  apart := List.isChain_cons.mpr ⟨fun p hp _ => hfirst p hp, h.apart⟩

theorem IsMerged.tail {p : UrlSegment} (h : IsMerged (p :: l)) : IsMerged l where
  literal_ne text hmem := h.literal_ne text (List.mem_cons_of_mem p hmem)
  apart := h.apart.tail

/-- After a literal piece there is none. -/
theorem IsMerged.isLiteral_head? (h : IsMerged (.literal text :: l)) :
    ∀ p ∈ l.head?, p.isLiteral = false :=
  fun p hp => (List.isChain_cons.mp h.apart).1 p hp rfl

theorem prependLiteral_empty (l : List UrlSegment) : prependLiteral "" l = l := by
  rcases l with _ | ⟨next | expr, r⟩ <;> simp [prependLiteral]

theorem prependLiteral_eq_cons (hne : text ≠ "")
    (hfirst : ∀ p ∈ l.head?, p.isLiteral = false) :
    prependLiteral text l = .literal text :: l := by
  rcases l with _ | ⟨next | expr, r⟩
  · exact if_neg hne
  · exact absurd (hfirst (.literal next) rfl) (by simp)
  · exact if_neg hne

theorem isMerged_prependLiteral (text : String) (h : IsMerged l) :
    IsMerged (prependLiteral text l) := by
  by_cases hempty : text = ""
  · rwa [hempty, prependLiteral_empty]
  rcases l with _ | ⟨next | expr, r⟩
  · rw [prependLiteral_eq_cons hempty (by simp)]
    exact h.literal_cons hempty (by simp)
  · exact h.tail.literal_cons (by simp [hempty]) h.isLiteral_head?
  · have hslot : ∀ p ∈ (UrlSegment.slot expr :: r).head?, p.isLiteral = false := by simp
    rw [prependLiteral_eq_cons hempty hslot]
    exact h.literal_cons hempty hslot

theorem isMerged_merged (l : List UrlSegment) : IsMerged (merged l) := by
  fun_induction merged l with
  | case1 => exact .nil
  | case2 text r ih => exact isMerged_prependLiteral text ih
  | case3 expr r ih => exact ih.slot_cons expr

theorem merged_eq_self (h : IsMerged l) : merged l = l := by
  fun_induction merged l with
  | case1 => rfl
  | case2 text r ih =>
    rw [ih h.tail]
    exact prependLiteral_eq_cons (h.literal_ne text List.mem_cons_self) h.isLiteral_head?
  | case3 expr r ih => rw [ih h.tail]

/-- Pieces may be merged before other ones are put in front. -/
theorem merged_append_merged (l more : List UrlSegment) :
    merged (l ++ merged more) = merged (l ++ more) := by
  induction l with
  | nil => exact merged_eq_self (isMerged_merged more)
  | cons p l ih =>
    cases p with
    | literal text => rw [List.cons_append, List.cons_append, merged, merged, ih]
    | slot expr => rw [List.cons_append, List.cons_append, merged, merged, ih]

/-! ### Merging one by one -/

theorem pushSegment_cons (p q : UrlSegment) (hl : l ≠ []) :
    pushSegment (p :: l) q = p :: pushSegment l q := by
  cases q with
  | slot expr => rfl
  | literal text =>
    have hlast : (p :: l).getLast? = l.getLast? := List.getLast?_cons_of_ne_nil hl
    have hdrop : (p :: l).dropLast = p :: l.dropLast := List.dropLast_cons_of_ne_nil hl
    simp only [pushSegment, pushLiteral, hlast, hdrop]
    split
    · rfl
    · split <;> rfl

theorem pushSegment_slot_cons (expr : String) (l : List UrlSegment) (q : UrlSegment) :
    pushSegment (.slot expr :: l) q = .slot expr :: pushSegment l q := by
  cases l with
  | cons p l => exact pushSegment_cons _ q (List.cons_ne_nil p l)
  | nil =>
    cases q with
    | slot other => rfl
    | literal text =>
      simp only [pushSegment, pushLiteral]
      split <;> rfl

theorem pushSegment_nil (q : UrlSegment) : pushSegment [] q = merged [q] := by
  cases q with
  | slot expr => rfl
  | literal text => simp [pushSegment, pushLiteral, merged, prependLiteral, String.isEmpty_iff]

theorem pushSegment_singleton (text : String) (q : UrlSegment) :
    pushSegment [.literal text] q = match q with
      | .literal next => [.literal (text ++ next)]
      | .slot expr => [.literal text, .slot expr] := by
  cases q with
  | slot expr => rfl
  | literal next =>
    simp only [pushSegment, pushLiteral, String.isEmpty_iff]
    split
    · next hempty => rw [hempty, String.append_empty]
    · rfl

/-- What is put in front does not matter at the end. -/
theorem pushSegment_prependLiteral (text : String) (l : List UrlSegment) (q : UrlSegment) :
    pushSegment (prependLiteral text l) q = prependLiteral text (pushSegment l q) := by
  by_cases hempty : text = ""
  · rw [hempty, prependLiteral_empty, prependLiteral_empty]
  match l with
  | [] =>
    rw [prependLiteral_eq_cons hempty (by simp), pushSegment_singleton, pushSegment_nil]
    cases q with
    | slot expr => exact (if_neg hempty).symm
    | literal next =>
      by_cases hnext : next = ""
      · simp [merged, prependLiteral, hnext, hempty]
      · simp [merged, prependLiteral, hnext]
  | [.literal next] =>
    simp only [prependLiteral, pushSegment_singleton]
    cases q with
    | slot expr => rfl
    | literal more => simp only [String.append_assoc]
  | .literal next :: p :: r =>
    simp only [prependLiteral, pushSegment_cons _ q (List.cons_ne_nil p r)]
  | .slot expr :: r =>
    simp only [prependLiteral, if_neg hempty, pushSegment_cons _ q (List.cons_ne_nil _ r),
      pushSegment_slot_cons]

theorem pushSegment_merged (l : List UrlSegment) (q : UrlSegment) :
    pushSegment (merged l) q = merged (l ++ [q]) := by
  induction l with
  | nil => exact pushSegment_nil q
  | cons p l ih =>
    cases p with
    | literal text =>
      rw [merged, pushSegment_prependLiteral, ih, List.cons_append, merged]
    | slot expr => rw [merged, pushSegment_slot_cons, ih, List.cons_append, merged]

/-- A fold whose steps merge what they are given merges it all. -/
theorem foldl_merged {α : Type} {step : List UrlSegment → α → List UrlSegment}
    {pieces : α → List UrlSegment}
    (hstep : ∀ l a, step (merged l) a = merged (l ++ pieces a)) (l : List UrlSegment)
    (parts : List α) : parts.foldl step (merged l) = merged (l ++ parts.flatMap pieces) := by
  induction parts generalizing l with
  | nil => simp
  | cons a parts ih => rw [List.foldl_cons, hstep, ih, List.flatMap_cons, List.append_assoc]

theorem pushAll_merged (l more : List UrlSegment) :
    pushAll (merged l) more = merged (l ++ more) := by
  rw [pushAll, foldl_merged pushSegment_merged, List.flatMap_singleton']

theorem pushAll_merged_merged (l more : List UrlSegment) :
    pushAll (merged l) (merged more) = merged (l ++ more) := by
  rw [pushAll_merged, merged_append_merged]

/-! ### Texts and slots -/

theorem literalText?_prependLiteral (text : String) (l : List UrlSegment) :
    literalText? (prependLiteral text l) = (literalText? l).map (text ++ ·) := by
  by_cases hempty : text = ""
  · simp [hempty, prependLiteral_empty]
  rcases l with _ | ⟨next | expr, r⟩
  · simp [prependLiteral, hempty, literalText?]
  · simp [prependLiteral, literalText?, Function.comp_def, String.append_assoc]
  · simp [prependLiteral, hempty, literalText?]

/-- Merging keeps the text. -/
theorem literalText?_merged (l : List UrlSegment) : literalText? (merged l) = literalText? l := by
  fun_induction merged l with
  | case1 => rfl
  | case2 text r ih => rw [literalText?_prependLiteral, ih, literalText?]
  | case3 expr r ih => rfl

theorem literalText?_eq (l : List UrlSegment) :
    literalText? l
      = if ∀ p ∈ l, p.isLiteral then some (String.join (l.map UrlSegment.text)) else none := by
  induction l with
  | nil => simp [literalText?]
  | cons p l ih =>
    cases p with
    | slot expr => simp [literalText?]
    | literal text =>
      rw [literalText?, ih]
      simp [UrlSegment.text, String.join_cons]

theorem isSome_literalText? : (literalText? l).isSome ↔ ∀ p ∈ l, p.isLiteral := by
  rw [literalText?_eq]
  split <;> simp_all

/-- Merging keeps slots. -/
theorem forall_isLiteral_merged : (∀ p ∈ merged l, p.isLiteral) ↔ ∀ p ∈ l, p.isLiteral := by
  rw [← isSome_literalText?, literalText?_merged, isSome_literalText?]

/-! ### Strings -/

/-- Whether the string is a byte string. -/
def IsBytes (string : Node) : Prop := 'b' ∈ literalPrefix string

instance (string : Node) : Decidable (IsBytes string) :=
  inferInstanceAs (Decidable (_ ∈ _))

/-- What a part of a string spells out. -/
def partPieces (raw template : Bool) (part : Node) : List UrlSegment :=
  if part.kind = "string_content" ∨ part.kind = "escape_sequence" then
    [.literal (String.ofList (unescape raw template part.text.toList))]
  else if part.kind = "interpolation" then [.slot (slotText part)]
  else []

/-- What a string spells out. -/
def stringPieces (string : Node) : List UrlSegment :=
  let letters := literalPrefix string
  string.children.flatMap (partPieces (letters.contains 'r') (letters.contains 'f'))

/-- A string or several of them next to each other, none of them a byte string. -/
def IsText (n : Node) : Prop :=
  n.kind = "string" ∧ ¬ IsBytes n ∨
    n.kind = "concatenated_string" ∧ ∀ string ∈ n.namedChildren, ¬ IsBytes string

instance (n : Node) : Decidable (IsText n) := inferInstanceAs (Decidable (_ ∨ _))

/-- What a string or an implicit concatenation spells out. -/
def textPieces (n : Node) : List UrlSegment :=
  if n.kind = "string" then stringPieces n else n.namedChildren.flatMap stringPieces

theorem pushPart_merged (raw template : Bool) (l : List UrlSegment) (part : Node) :
    pushPart raw template (merged l) part = merged (l ++ partPieces raw template part) := by
  unfold pushPart partPieces
  split
  · exact pushSegment_merged l (.literal _)
  · split
    · exact pushSegment_merged l (.slot _)
    · rw [List.append_nil]

theorem stringSegments?_eq (string : Node) :
    stringSegments? string
      = if IsBytes string then none else some (merged (stringPieces string)) := by
  have hmerge := foldl_merged
    (pushPart_merged ((literalPrefix string).contains 'r') ((literalPrefix string).contains 'f')) []
    string.children
  by_cases hbytes : IsBytes string
  · rw [if_pos hbytes, stringSegments?, if_pos (List.contains_iff_mem.mpr hbytes)]
  · rw [if_neg hbytes, stringSegments?, if_neg (mt List.contains_iff_mem.mp hbytes)]
    exact congrArg some hmerge

theorem foldlM_stringSegments?_merged (l : List UrlSegment) (strings : List Node) :
    strings.foldlM (fun segments string => (stringSegments? string).map (pushAll segments))
        (merged l)
      = if ∀ string ∈ strings, ¬ IsBytes string then
          some (merged (l ++ strings.flatMap stringPieces))
        else none := by
  induction strings generalizing l with
  | nil => simp
  | cons string strings ih =>
    rw [List.foldlM_cons, stringSegments?_eq]
    by_cases h : IsBytes string
    · simp [h]
    · simp [h, pushAll_merged_merged, ih]

/-- **What is read from a string expression** is what it spells out, merged. -/
theorem template?_eq (n : Node) :
    template? n = if IsText (stripParens n) then some (merged (textPieces (stripParens n)))
      else none := by
  rw [template?]
  generalize stripParens n = m
  by_cases hstring : m.kind = "string"
  · rw [if_pos hstring, stringSegments?_eq, textPieces, if_pos hstring]
    by_cases hbytes : IsBytes m <;> simp [IsText, hstring, hbytes]
  rw [if_neg hstring, textPieces, if_neg hstring]
  by_cases hconcatenated : m.kind = "concatenated_string"
  · have hmerge := foldlM_stringSegments?_merged [] m.namedChildren
    rw [if_pos hconcatenated]
    refine hmerge.trans ?_
    simp [IsText, hconcatenated]
  · rw [if_neg hconcatenated, if_neg (by simp [IsText, hstring, hconcatenated])]

end Expr

end ApiSurface
