import ApiSurface.Proofs.Binding.Aliases
import ApiSurface.Proofs.TypeHint.Mentions

/-!
# The guard against endless aliases

An alias that is met while it is being expanded would be expanded for ever, so the reading gives up
there. This never happens. All names that are read in the course of an expansion are looked up
before the place where the target of the alias ends, be it at their own places or at those of the
quotes around them (`Reaches.isInside`), and the target of an alias that is found ends before the
place of the look-up. So targets end earlier and earlier (`IsInside.endByte_lt`), and readings are
what they are without the guard (`readUnguarded`).
-/

namespace ApiSurface

open ApiSurface.Syntax (Node Tree)
open ApiSurface.Binding (Table)
open ApiSurface.Expr (stripType stripType_mem_descendants)

/-- The table of the file is that of its tree, whose children lie inside their parents, whose nodes
are not empty but for the root, and which is numbered in source order. -/
structure Source.IsNested (s : Source) : Prop where
  table_eq : s.table = Table.build s.tree s.catalog
  nested : s.tree.IsNested
  numbered : s.tree.IsNumbered

namespace TypeHint

variable {s : Source} {look look' : Look} {n m T : Node} {a : Binding.TypeAlias} {r : Request}

/-! ### Readings that come about -/

/-- Reading some annotation leads to reading the node in these circumstances. -/
inductive Reaches (s : Source) : Look → Node → Prop
  | start (n : Node) : Reaches s .initial n
  | asks {look : Look} {n : Node} {r : Request} (h : Reaches s look n) (hr : r ∈ asked s look n) :
    Reaches s (r.under look.visiting) r.node

/-- A level asks for parts of the node, for the expression between quotes, or for the target of an
alias. -/
theorem asked_cases (h : r ∈ asked s look n) :
    (∃ c ∈ n.descendants, r = .part look c) ∨
    (r.expanding = none ∧ r.anchor = some (anchorOf s look (stripType n))) ∨
    ∃ a, aliasAt? s look n = some a ∧ r = .target a := by
  have hstrip := stripType_mem_descendants n
  have hparts : ∀ l : List Node, (∀ c ∈ l, c ∈ (stripType n).descendants) →
      r ∈ l.map (.part look) → ∃ c ∈ n.descendants, r = .part look c := by
    intro l hl hr
    obtain ⟨c, hc, rfl⟩ := List.mem_map.mp hr
    exact ⟨c, Node.mem_descendants_trans hstrip (hl c hc), rfl⟩
  have hname : r ∈ nameAsked s look n → ∃ a, aliasAt? s look n = some a ∧ r = .target a := by
    intro hr
    rw [nameAsked] at hr
    split at hr
    · simp at hr
    · obtain ⟨a, ha, rfl⟩ := List.mem_map.mp hr
      exact ⟨a, Option.mem_toList.mp ha, rfl⟩
  have hquoted : r ∈ quotedAsked s look (stripType n) →
      r.expanding = none ∧ r.anchor = some (anchorOf s look (stripType n)) := by
    intro hr
    rw [quotedAsked] at hr
    grind
  simp only [asked] at h
  split at h
  · exact .inr (.inr (hname h))
  · exact .inr (.inr (hname h))
  · exact .inr (.inr (hname h))
  · exact .inr (.inl (hquoted h))
  · exact .inr (.inl (hquoted h))
  · exact .inl (hparts _ (fun c hc => mem_descendants_of_subscriptAsked hc) h)
  · exact .inl (hparts _ (fun c hc => mem_descendants_of_subscriptAsked hc) h)
  · split at h
    · exact .inl (hparts _ (fun c hc => mem_descendants_of_unionLeaves hc) h)
    · simp at h
  · exact .inl (hparts _ (fun c hc => mem_descendants_of_unionLeaves hc) h)
  · exact .inl (hparts _ (fun c hc => mem_descendants_of_callAsked hc) h)
  · simp at h

/-! ### Aliases and their targets -/

theorem isWritten_of_aliasAt? (hs : s.IsNested) (h : aliasAt? s look n = some a) :
    a.target.IsBelow s.tree.root ∧
      a.target.endByte ≤ (anchorOf s look (stripType n)).pos := by
  obtain ⟨-, -, hfound⟩ := aliasAt?_eq_some_iff.mp h
  rw [hs.table_eq] at hfound
  exact Table.isWritten_of_lookupAt (Binding.keepsAliases_build hs.nested s.catalog) hfound a rfl

/-- All names at and below the node are looked up before the end of the other node. -/
def LooksBefore (s : Source) (look : Look) (n T : Node) : Prop :=
  ∀ m ∈ n.descendants, (anchorOf s look m).pos < T.endByte

theorem LooksBefore.below (h : LooksBefore s look n T) (hm : m ∈ n.descendants)
    (ha : look'.anchor = look.anchor) : LooksBefore s look' m T := fun k hk => by
  rw [anchorOf_congr ha]
  exact h k (Node.mem_descendants_trans hm hk)

/-- The names between quotes are looked up at the place of the quotes. -/
theorem LooksBefore.quoted (h : LooksBefore s look n T)
    (ha : look'.anchor = some (anchorOf s look (stripType n))) (m : Node) :
    LooksBefore s look' m T := fun k _ => by
  rw [anchorOf, ha]
  exact h _ (stripType_mem_descendants n)

/-- The names in the target of an alias are looked up where they stand. -/
theorem looksBefore_target (hs : s.IsNested) (h : aliasAt? s look n = some a)
    (hT : a.target.endByte ≤ T.endByte) (ha : look'.anchor = none) :
    LooksBefore s look' a.target T := fun k hk => by
  obtain ⟨hbelow, -⟩ := isWritten_of_aliasAt? hs h
  have hlt := hs.nested.lt_of_isBelow (hbelow.of_mem_descendants hk)
  have hend := (hs.nested.encloses hbelow.mem_descendants hk).2
  rw [anchorOf, ha]
  exact Nat.lt_of_lt_of_le hlt (Nat.le_trans hend hT)

/-- Whatever is being expanded, names are looked up before it ends. -/
def IsInside (s : Source) (look : Look) (n : Node) : Prop :=
  ∀ id ∈ look.visiting, ∃ T ∈ s.tree.nodes, T.id = id ∧ LooksBefore s look n T

theorem IsInside.asks (hs : s.IsNested) (h : IsInside s look n) (hr : r ∈ asked s look n) :
    IsInside s (r.under look.visiting) r.node := by
  intro id hid
  rcases asked_cases hr with ⟨c, hc, rfl⟩ | ⟨hno, hanchor⟩ | ⟨a, halias, rfl⟩
  · obtain ⟨T, hT, hTid, hbefore⟩ := h id hid
    exact ⟨T, hT, hTid, hbefore.below hc rfl⟩
  · obtain ⟨T, hT, hTid, hbefore⟩ := h id (by simpa [Request.under, hno] using hid)
    exact ⟨T, hT, hTid, hbefore.quoted hanchor r.node⟩
  · obtain ⟨hbelow, hend⟩ := isWritten_of_aliasAt? hs halias
    rw [Request.under_target] at hid
    rcases List.mem_cons.mp hid with rfl | hid
    · exact ⟨a.target, hbelow.mem_descendants, rfl,
        looksBefore_target hs halias (Nat.le_refl _) rfl⟩
    · obtain ⟨T, hT, hTid, hbefore⟩ := h id hid
      have hlt := hbefore _ (stripType_mem_descendants n)
      exact ⟨T, hT, hTid,
        looksBefore_target hs halias (Nat.le_of_lt (Nat.lt_of_le_of_lt hend hlt)) rfl⟩

/-- In the course of an expansion names are looked up before the target ends. -/
theorem Reaches.isInside (hs : s.IsNested) (h : Reaches s look n) : IsInside s look n := by
  induction h with
  | start n => exact fun id hid => absurd hid List.not_mem_nil
  | asks _ hr ih => exact ih.asks hs hr

/-- Targets end earlier and earlier. -/
theorem IsInside.endByte_lt (hs : s.IsNested) (h : IsInside s look n)
    (ha : aliasAt? s look n = some a) :
    ∀ id ∈ look.visiting, ∃ T ∈ s.tree.nodes, T.id = id ∧ a.target.endByte < T.endByte := by
  intro id hid
  obtain ⟨T, hT, hTid, hbefore⟩ := h id hid
  have hend := (isWritten_of_aliasAt? hs ha).2
  exact ⟨T, hT, hTid, Nat.lt_of_le_of_lt hend (hbefore _ (stripType_mem_descendants n))⟩

theorem IsInside.not_mem_visiting (hs : s.IsNested) (h : IsInside s look n)
    (ha : aliasAt? s look n = some a) : a.target.id ∉ look.visiting := by
  intro hmem
  obtain ⟨T, hT, hTid, hlt⟩ := h.endByte_lt hs ha _ hmem
  have htarget := (isWritten_of_aliasAt? hs ha).1.mem_descendants
  obtain rfl := hs.numbered.eq_of_id_eq hT htarget hTid
  exact Nat.lt_irrefl _ hlt

theorem IsInside.meetsGuard_eq (hs : s.IsNested) (h : IsInside s look n) :
    meetsGuard s look n = false := by
  cases ha : aliasAt? s look n with
  | none => rw [meetsGuard, ha, Option.any_none]
  | some a =>
    rw [meetsGuard, ha, Option.any_some, ← Bool.not_eq_true, List.contains_iff_mem]
    exact h.not_mem_visiting hs ha

/-! ### Readings without the guard -/

/-- Read at most the given number of levels, and do not note which aliases are being expanded. -/
def readUnguarded (s : Source) : Nat → Option Anchor → Node → TypeInfo
  | 0, _, _ => .unknown
  | depth + 1, anchor, n =>
    level s (fun look c => readUnguarded s depth look.anchor c) ⟨[], anchor⟩ n

theorem readWithin_eq_readUnguarded (hs : s.IsNested) (depth : Nat) (h : IsInside s look n) :
    readWithin s depth look n = readUnguarded s depth look.anchor n := by
  induction depth generalizing look n with
  | zero => rfl
  | succ depth ih =>
    have hfree : meetsGuard s ⟨[], look.anchor⟩ n = false :=
      IsInside.meetsGuard_eq hs fun id hid => absurd hid List.not_mem_nil
    exact level_congr_of_asked rfl ((h.meetsGuard_eq hs).trans hfree.symm) fun r hr =>
      ih (h.asks hs hr)

/-- An alias reads as its target does, one level further down. -/
theorem readWithin_of_aliasAt? (hs : s.IsNested) (h : IsInside s look n)
    (ha : aliasAt? s look n = some a) (depth : Nat) :
    (readWithin s (depth + 1) look n).descriptor
      = (readWithin s depth .initial a.target).descriptor := by
  have hasked : Request.target a ∈ asked s look n := by
    rw [asked_of_aliasAt? ha (h.meetsGuard_eq hs)]
    exact List.mem_cons_self
  have htarget : readWithin s depth ⟨a.target.id :: look.visiting, none⟩ a.target
      = readUnguarded s depth none a.target :=
    readWithin_eq_readUnguarded hs depth (h.asks hs hasked)
  have hinitial : readWithin s depth .initial a.target = readUnguarded s depth none a.target :=
    readWithin_eq_readUnguarded hs depth ((Reaches.start a.target).isInside hs)
  have hguard : look.visiting.contains a.target.id = false := by
    rw [← Bool.not_eq_true, List.contains_iff_mem]
    exact h.not_mem_visiting hs ha
  rw [readWithin, level_of_mem_nameKinds (aliasAt?_eq_some_iff.mp ha).1, ofName_of_aliasAt? ha,
    ofAlias, hguard, if_neg Bool.false_ne_true, hinitial, htarget]

/-- **The guard is never met.** Whatever is read in the course of reading an annotation, an alias
that it names is not being expanded already: its target ends before those of all aliases that are.
So readings are what they are without the guard, and an alias reads as its target does. -/
theorem guard_silent (hs : s.IsNested) :
    (∀ look n a, Reaches s look n → aliasAt? s look n = some a →
      meetsGuard s look n = false ∧
      (∀ id ∈ look.visiting, ∃ T ∈ s.tree.nodes, T.id = id ∧ a.target.endByte < T.endByte) ∧
      ∀ depth, (readWithin s (depth + 1) look n).descriptor
        = (readWithin s depth .initial a.target).descriptor) ∧
    (∀ depth n, readWithin s depth .initial n = readUnguarded s depth none n) ∧
    ∀ n a, aliasAt? s .initial n = some a → fits s maxDepth .initial n = true →
      typeOf s n = typeOf s a.target := by
  refine ⟨fun look n a h ha => ?_, fun depth n => ?_, fun n a ha hfits => ?_⟩
  · have hinside := h.isInside hs
    exact ⟨hinside.meetsGuard_eq hs, hinside.endByte_lt hs ha, readWithin_of_aliasAt? hs hinside ha⟩
  · exact readWithin_eq_readUnguarded hs depth ((Reaches.start n).isInside hs)
  · have hmore : readWithin s (maxDepth + 1) .initial n = readWithin s maxDepth .initial n :=
      readWithin_eq_of_fits hfits (Nat.le_succ maxDepth)
    calc typeOf s n
        = (readWithin s (maxDepth + 1) .initial n).descriptor := by rw [hmore]; rfl
      _ = typeOf s a.target :=
        readWithin_of_aliasAt? hs ((Reaches.start n).isInside hs) ha maxDepth

section Aliases

open ApiSurface.Syntax.ParseTree

/-- An alias in the target of another one, which stands between quotes. -/
def aliasesTree : Tree := Tree.lower "A = int | str\nC = list[A]\nx: \"C\"" <|
  rule "module" none 0 32 [
    rule "expression_statement" none 0 13 [
      rule "assignment" none 0 13 [
        rule "identifier" "left" 0 1 [],
        token "=" 2 3,
        rule "binary_operator" "right" 4 13 [
          rule "identifier" "left" 4 7 [],
          token "|" 8 9,
          rule "identifier" "right" 10 13 []]]],
    rule "expression_statement" none 14 25 [
      rule "assignment" none 14 25 [
        rule "identifier" "left" 14 15 [],
        token "=" 16 17,
        rule "subscript" "right" 18 25 [
          rule "identifier" "value" 18 22 [],
          token "[" 22 23,
          rule "identifier" "subscript" 23 24 [],
          token "]" 24 25]]],
    rule "expression_statement" none 26 32 [
      rule "assignment" none 26 32 [
        rule "identifier" "left" 26 27 [],
        token ":" 27 28,
        rule "type" "type" 29 32 [
          rule "string" none 29 32 [
            rule "string_start" none 29 30 [],
            rule "string_content" none 30 31 [],
            rule "string_end" none 31 32 []]]]]]

/-- What stands between the quotes. -/
def quotedTree : Tree := Tree.lower "C" <|
  rule "module" none 0 1 [
    rule "expression_statement" none 0 1 [rule "identifier" none 0 1 []]]

def aliases : Source :=
  .read (fun text => if text = "C" then quotedTree else aliasesTree) .builtin "aliases.py" ""

def aliasesNode (i : Nat) : Node := (aliasesTree.node? i).getD default

theorem isNested_aliases : aliases.IsNested :=
  ⟨rfl, by decide +kernel, Tree.isNumbered_lower _ _⟩

/-- The theorem applies to an alias in the target of another one. -/
theorem guard_silent_aliases :
    aliases.IsNested ∧
    (aliasAt? aliases .initial (aliasesNode 16)).map (·.target.id) = some 5 ∧
    fits aliases maxDepth .initial (aliasesNode 16) = true ∧
    (∀ a ∈ aliasAt? aliases .initial (aliasesNode 16),
      typeOf aliases (aliasesNode 16) = typeOf aliases a.target) ∧
    readWithin aliases maxDepth .initial (aliasesNode 22)
      = readUnguarded aliases maxDepth none (aliasesNode 22) ∧
    typeOf aliases (aliasesNode 22)
      = .list (.union [.primitive "int", .primitive "string"]) := by
  have hfits : fits aliases maxDepth .initial (aliasesNode 16) = true := by decide +kernel
  obtain ⟨-, hunguarded, htarget⟩ := guard_silent isNested_aliases
  exact ⟨isNested_aliases, by decide +kernel, hfits,
    fun a ha => htarget (aliasesNode 16) a ha hfits, hunguarded maxDepth (aliasesNode 22),
    by decide +kernel⟩

end Aliases

end TypeHint

end ApiSurface
