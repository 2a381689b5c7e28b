import Mathlib.Data.Option.Basic
import ApiSurface.Proofs.Syntax.Numbering
import ApiSurface.Syntax.Arena

/-!
# Lowering along a cursor

A cursor walks a parse tree when its states stand at the places of the tree and its moves go from
one place to the next (`Cursor.Walks`); `Focus.cursor` does (`Focus.walks_cursor`). Then the walk
over the tree ends, and what it leaves behind is the arena of the tree that is numbered by recursion
(`Cursor.Walks.lower?_eq`).

From a node that it has just visited, the walk comes to the point where it leaves that node: the
slots of the nodes below stand behind those that it had, and of these only the slot of the node
itself has changed, by the numbers of its children (`Cursor.Covers`). This goes by recursion over
subtrees (`Cursor.Walks.covers`) and over the siblings that are still to come
(`Cursor.Walks.leave_child`). Each node takes two turns, one to enter it and one to leave it.
-/

namespace ApiSurface.Syntax

variable {σ : Type}

/-! ### Paths -/

/-- The subtree at the end of a path. A path names a node by the position of a child under each
node above it, from the root on. -/
def ParseTree.subtree? (t : ParseTree) : List Nat → Option ParseTree
  | [] => some t
  | i :: path => t.children[i]?.bind fun u => u.subtree? path

theorem ParseTree.subtree?_append (t : ParseTree) (path path' : List Nat) :
    t.subtree? (path ++ path') = (t.subtree? path).bind fun u => u.subtree? path' := by
  induction path generalizing t with
  | nil => rfl
  | cons i path ih =>
    rw [List.cons_append, subtree?, subtree?]
    cases t.children[i]? with
    | none => rfl
    | some u => exact ih u

theorem ParseTree.subtree?_child {t u : ParseTree} {path : List Nat}
    (h : t.subtree? path = some u) (i : Nat) : t.subtree? (path ++ [i]) = u.children[i]? := by
  rw [subtree?_append, h, Option.bind_some, subtree?]
  exact Option.bind_fun_some _

/-! ### Walking a tree -/

/-- **A cursor that walks a tree.** `stands s path` says that in the state `s` the cursor stands at
the node that the path leads to. It shows the label of that node. It moves to the first child and to
the next sibling where there is one, and to the parent from every node but the root; otherwise it
says that it cannot. -/
structure Cursor.Walks (c : Cursor σ) (t : ParseTree) (stands : σ → List Nat → Prop) : Prop where
  label : ∀ {s path u}, stands s path → t.subtree? path = some u → c.label s = u.label
  firstChild : ∀ {s path}, stands s path →
    Option.Rel (fun s' _ => stands s' (path ++ [0])) (c.firstChild? s) (t.subtree? (path ++ [0]))
  nextSibling : ∀ {s path i}, stands s (path ++ [i]) →
    Option.Rel (fun s' _ => stands s' (path ++ [i + 1])) (c.nextSibling? s)
      (t.subtree? (path ++ [i + 1]))
  nextSibling_root : ∀ {s}, stands s [] → c.nextSibling? s = none
  parent : ∀ {s path i}, stands s (path ++ [i]) → ∃ s', c.parent? s = some s' ∧ stands s' path
  parent_root : ∀ {s}, stands s [] → c.parent? s = none

/-- Where a focus stands in a tree. -/
inductive Focus.StandsAt (t : ParseTree) : Focus → List Nat → Prop where
  | root : StandsAt t (top t) []
  | child {v u : ParseTree} {vs us : List ParseTree} {above : List (ParseTree × List ParseTree)}
      {path : List Nat} {i : Nat} (hv : StandsAt t ⟨v, vs, above⟩ path)
      (hu : v.children.drop i = u :: us) : StandsAt t ⟨u, us, (v, vs) :: above⟩ (path ++ [i])

namespace Focus

variable {t : ParseTree} {f : Focus} {path : List Nat}

/-- A focus shows the subtree at the end of its path. -/
theorem StandsAt.subtree?_eq (h : StandsAt t f path) : t.subtree? path = some f.here := by
  induction h with
  | root => rfl
  | child hv hu ih =>
    rw [ParseTree.subtree?_child ih, ← List.head?_drop, hu]
    rfl

theorem StandsAt.eq_top (h : StandsAt t f []) : f = top t := by
  generalize hp : [] = p at h
  cases h with
  | root => rfl
  | child hv hu => simp at hp

/-- A focus below the root has come from the parent of its node. -/
theorem StandsAt.exists_parent {i : Nat} (h : StandsAt t f (path ++ [i])) :
    ∃ v vs above, f.above = (v, vs) :: above ∧ StandsAt t ⟨v, vs, above⟩ path ∧
      v.children.drop i = f.here :: f.later := by
  generalize hp : path ++ [i] = p at h
  cases h with
  | root => simp at hp
  | child hv hu =>
    obtain ⟨rfl, rfl⟩ : path = _ ∧ i = _ := by simpa using hp
    exact ⟨_, _, _, rfl, hv, hu⟩

/-- **A focus walks its tree.** -/
theorem walks_cursor (t : ParseTree) : cursor.Walks t (StandsAt t) where
  label h hu := by
    rw [h.subtree?_eq] at hu
    exact congrArg ParseTree.label (Option.some.inj hu)
  firstChild {f path} h := by
    rw [ParseTree.subtree?_child h.subtree?_eq]
    cases hcs : f.here.children with
    | nil => simp only [cursor, hcs]; exact .none
    | cons u us => simp only [cursor, hcs]; exact .some (.child h hcs)
  nextSibling {f path i} h := by
    obtain ⟨v, vs, above, habove, hv, hdrop⟩ := h.exists_parent
    have hlater : v.children.drop (i + 1) = f.later := by rw [← List.drop_drop, hdrop]; rfl
    rw [ParseTree.subtree?_child hv.subtree?_eq, ← List.head?_drop, hlater]
    cases hus : f.later with
    | nil => simp only [cursor, hus]; exact .none
    | cons u us =>
      simp only [cursor, hus, habove]
      exact .some (.child hv (hlater.trans hus))
  nextSibling_root h := by rw [h.eq_top]; rfl
  parent h := by
    obtain ⟨v, vs, above, habove, hv, -⟩ := h.exists_parent
    exact ⟨⟨v, vs, above⟩, by simp only [cursor, habove], hv⟩
  parent_root h := by rw [h.eq_top]; rfl

end Focus

/-! ### Slots -/

/-- The slots of a node with the given parent and of all nodes below it. -/
def Node.slots (parent : Option Node) (n : Node) : List Slot := (n.places parent).map Place.slot

/-- The slots of several nodes with one parent, and of all nodes below them. -/
def Node.slotsAll (parent : Node) (ns : List Node) : List Slot :=
  (placesAll (some parent) ns).map Place.slot

theorem Node.slotsAll_cons (parent n : Node) (ns : List Node) :
    slotsAll parent (n :: ns) = n.slots (some parent) ++ slotsAll parent ns := by
  rw [slotsAll, placesAll, List.map_append, slots, slotsAll]

theorem ParseTree.slots_number (source : String) (n : Nat) (parent : Option Node) (l : Label)
    (ts : List ParseTree) :
    ((node l ts).number source n).slots parent =
      ⟨l, parent.map Node.id, ((numberAll source (n + 1) ts).map Node.id).toArray⟩ ::
        Node.slotsAll ((node l ts).number source n) (numberAll source (n + 1) ts) := by
  rw [Node.slots, number, Node.places, List.map_cons]
  rfl

theorem ParseTree.id_number (source : String) (n : Nat) (t : ParseTree) :
    (t.number source n).id = n := by
  cases t
  rfl

theorem ParseTree.length_slots_number (source : String) (n : Nat) (t : ParseTree)
    (parent : Option Node) :
    ((t.number source n).slots parent).length = t.size := by
  rw [Node.slots, List.length_map, ← List.length_map Place.node, Node.map_node_places,
    ← List.length_map Node.id, map_id_number, List.length_range']

/-- Changing the entry behind a list leaves the rest as it is. -/
theorem modify_append_cons {α : Type} (f : α → α) (before after : List α) (x : α) :
    (before ++ x :: after).modify before.length f = before ++ f x :: after := by
  induction before with
  | nil => rfl
  | cons y before ih => simpa using ih

section Moves

variable {α β : Type} {r : α → β → Prop} {x : Option α} {b : β}

private theorem eq_none_of_rel (h : Option.Rel r x none) : x = none := by
  cases h
  rfl

private theorem exists_some_of_rel (h : Option.Rel r x (some b)) : ∃ a, x = some a ∧ r a b := by
  cases h with
  | some h => exact ⟨_, rfl, h⟩

end Moves

namespace Cursor

/-! ### Turns -/

/-- From `a` the walk comes to `b` in the given number of turns. -/
def Leads (c : Cursor σ) (turns : Nat) (a b : Lowering.Turn σ) : Prop :=
  ∀ more, c.run (more + turns) a = c.run more b

variable {c : Cursor σ} {a b d : Lowering.Turn σ} {w : Lowering σ} {turns turns' : Nat}

theorem Leads.refl (c : Cursor σ) (a : Lowering.Turn σ) : c.Leads 0 a a := fun _ => rfl

theorem Leads.trans (h : c.Leads turns a b) (h' : c.Leads turns' b d) :
    c.Leads (turns + turns') a d := fun more => by
  rw [Nat.add_comm turns, ← Nat.add_assoc, h, h']

theorem leads_enter (c : Cursor σ) (w : Lowering σ) :
    c.Leads 1 (.enter w) (c.descend w.slots.size (c.visit w)) := fun _ => rfl

theorem leads_leave (h : c.ascend? w = some a) : c.Leads 1 (.leave w) a := fun more => by
  rw [run, h]

theorem visit_root (c : Cursor σ) (s : σ) :
    c.visit ⟨#[], #[], s⟩ = ⟨#[⟨c.label s, none, #[]⟩], #[], s⟩ := rfl

/-- Visiting a node below the root adds its slot and tells the parent its number. -/
theorem visit_child (c : Cursor σ) (before after : List Slot) (p : Slot) (ancestors : Array Nat)
    (s : σ) :
    c.visit ⟨(before ++ p :: after).toArray, ancestors.push before.length, s⟩ =
      ⟨(before ++ { p with children := p.children.push (before ++ p :: after).length } ::
        (after ++ [(⟨c.label s, some before.length, #[]⟩ : Slot)])).toArray,
        ancestors.push before.length, s⟩ := by
  simp [visit, modify_append_cons]

/-! ### Subtrees -/

variable {t u : ParseTree} {stands : σ → List Nat → Prop} {s : σ} {path : List Nat}
  {source : String} {before after : List Slot} {p : Slot} {parent : Node} {n : Nat}

/-- From the top of the subtree `u`, just visited, the walk comes to the point where it leaves this
node, with the slots of all nodes below it. -/
def Covers (c : Cursor σ) (stands : σ → List Nat → Prop) (source : String) (u : ParseTree)
    (path : List Nat) : Prop :=
  ∀ (s : σ) (parent : Option Node) (before : List Slot) (ancestors : Array Nat), stands s path →
    ∃ s', stands s' path ∧ c.Leads (2 * ParseTree.sizeAll u.children)
      (c.descend before.length
        ⟨(before ++ [(⟨u.label, parent.map Node.id, #[]⟩ : Slot)]).toArray, ancestors, s⟩)
      (.leave ⟨(before ++ (u.number source before.length).slots parent).toArray, ancestors, s'⟩)

/-- The turns for a child, without the one to leave it, and those for the children behind it. -/
theorem turns_cons (u : ParseTree) (us : List ParseTree) :
    1 + 2 * ParseTree.sizeAll u.children + (1 + 2 * ParseTree.sizeAll us) =
      2 * ParseTree.sizeAll (u :: us) := by
  cases u with
  | node l ts =>
    rw [ParseTree.children, ParseTree.sizeAll, ParseTree.size]
    omega

/-- Behind the subtree of a child the slots have become more by its nodes. -/
theorem length_behind_child (hn : (before ++ p :: after).length = n) :
    (before ++ { p with children := p.children.push n } ::
      (after ++ (u.number source n).slots (some parent))).length = n + u.size := by
  rw [← hn]
  simp only [List.length_append, List.length_cons, ParseTree.length_slots_number]
  omega

/-- Entering a child, the walk comes to the point where it leaves it. The slot `p` of the parent has
the number of the child then, and the slots of the child's subtree are the last ones. -/
theorem Covers.enter_child (hcovers : c.Covers stands source u path) (hs : stands s path)
    (hlabel : c.label s = u.label) (hparent : parent.id = before.length)
    (hn : (before ++ p :: after).length = n) (ancestors : Array Nat) :
    ∃ s', stands s' path ∧ c.Leads (1 + 2 * ParseTree.sizeAll u.children)
      (.enter ⟨(before ++ p :: after).toArray, ancestors.push before.length, s⟩)
      (.leave ⟨(before ++ { p with children := p.children.push n } ::
          (after ++ (u.number source n).slots (some parent))).toArray,
        ancestors.push before.length, s'⟩) := by
  have hlength : (before ++ { p with children := p.children.push n } :: after).length = n := by
    simpa using hn
  obtain ⟨s', hs', hrun⟩ := hcovers s (some parent)
    (before ++ { p with children := p.children.push n } :: after)
    (ancestors.push before.length) hs
  have henter := c.leads_enter
    ⟨(before ++ p :: after).toArray, ancestors.push before.length, s⟩
  rw [hlength, Option.map_some, hparent, ← hlabel] at hrun
  rw [visit_child, hn, List.size_toArray, hn] at henter
  refine ⟨s', hs', henter.trans ?_⟩
  simpa using hrun

mutual
/-- **A subtree.** Below its top the walk goes through the first child and then, leaving it, through
the other children. -/
theorem Walks.covers (h : c.Walks t stands) (source : String) (u : ParseTree) {path : List Nat}
    (hu : t.subtree? path = some u) : c.Covers stands source u path := by
  intro s parent before ancestors hs
  cases u with
  | node l ts =>
    have hmove := h.firstChild hs
    rw [ParseTree.subtree?_child hu] at hmove
    cases ts with
    | nil =>
      refine ⟨s, hs, ?_⟩
      rw [descend, eq_none_of_rel hmove]
      exact .refl c _
    | cons u us =>
      obtain ⟨s₁, hfirst, hs₁⟩ := exists_some_of_rel hmove
      have hu₁ : t.subtree? (path ++ [0]) = some u := ParseTree.subtree?_child hu 0
      -- of the finished parent only the number matters for the slots of its children
      generalize hP : (ParseTree.node l (u :: us)).number source before.length = P
      have hid : P.id = before.length := by rw [← hP]; rfl
      have hlength : (before ++ [(⟨l, parent.map Node.id, #[]⟩ : Slot)]).length =
          before.length + 1 := List.length_append
      obtain ⟨s₂, hs₂, hbelow⟩ :=
        Covers.enter_child (h.covers source u hu₁) hs₁ (h.label hs₁ hu₁) hid hlength ancestors
      obtain ⟨s₃, hs₃, hbehind⟩ :=
        h.leave_child source us hu hs₂ rfl hid (length_behind_child hlength) ancestors
      have hall := hbelow.trans hbehind
      rw [turns_cons] at hall
      refine ⟨s₃, hs₃, ?_⟩
      rw [descend, hfirst, ← hP, ParseTree.slots_number, hP]
      simpa [ParseTree.numberAll, Node.slotsAll_cons, ParseTree.id_number, ParseTree.label,
        ParseTree.children] using hall

/-- **The siblings behind a child.** Leaving a child, the walk comes to the point where it leaves
the parent, with the slots of the subtrees `us` that were still to come. -/
theorem Walks.leave_child (h : c.Walks t stands) (source : String) (us : List ParseTree)
    {v : ParseTree} {s : σ} {path : List Nat} {i n : Nat} {before after : List Slot} {p : Slot}
    {parent : Node} (hv : t.subtree? path = some v) (hs : stands s (path ++ [i]))
    (hus : v.children.drop (i + 1) = us) (hparent : parent.id = before.length)
    (hn : (before ++ p :: after).length = n) (ancestors : Array Nat) :
    ∃ s', stands s' path ∧ c.Leads (1 + 2 * ParseTree.sizeAll us)
      (.leave ⟨(before ++ p :: after).toArray, ancestors.push before.length, s⟩)
      (.leave ⟨(before ++
          { p with children := p.children ++
              ((ParseTree.numberAll source n us).map Node.id).toArray } ::
          (after ++ Node.slotsAll parent (ParseTree.numberAll source n us))).toArray,
        ancestors, s'⟩) := by
  have hmove := h.nextSibling hs
  rw [ParseTree.subtree?_child hv, ← List.head?_drop, hus] at hmove
  cases us with
  | nil =>
    -- no sibling is left, so the cursor goes up and the parent's number leaves the stack
    obtain ⟨s₁, hup, hs₁⟩ := h.parent hs
    refine ⟨s₁, hs₁, leads_leave ?_⟩
    rw [ascend?, eq_none_of_rel hmove]
    simp only [hup, Array.pop_push]
    simp [ParseTree.numberAll, Node.slotsAll, Node.placesAll]
  | cons u us =>
    obtain ⟨s₁, hnext, hs₁⟩ := exists_some_of_rel hmove
    have hu : t.subtree? (path ++ [i + 1]) = some u := by
      rw [ParseTree.subtree?_child hv, ← List.head?_drop, hus]; rfl
    have hrest : v.children.drop (i + 1 + 1) = us := by rw [← List.drop_drop, hus]; rfl
    obtain ⟨s₂, hs₂, hbelow⟩ :=
      Covers.enter_child (h.covers source u hu) hs₁ (h.label hs₁ hu) hparent hn ancestors
    obtain ⟨s₃, hs₃, hbehind⟩ :=
      h.leave_child source us hv hs₂ hrest hparent (length_behind_child hn) ancestors
    have hascend : c.ascend? ⟨(before ++ p :: after).toArray, ancestors.push before.length, s⟩ =
        some (.enter ⟨(before ++ p :: after).toArray, ancestors.push before.length, s₁⟩) := by
      rw [ascend?, hnext]
    have hall := (leads_leave hascend).trans (hbelow.trans hbehind)
    rw [turns_cons] at hall
    refine ⟨s₃, hs₃, ?_⟩
    simpa [ParseTree.numberAll, Node.slotsAll_cons, ParseTree.id_number] using hall
end

/-- **The loop and the recursion agree.** The walk of a cursor over a parse tree comes to its end
within two turns for each node, and what it leaves behind is the arena of the numbered tree. -/
theorem Walks.lower?_eq (h : c.Walks t stands) (hs : stands s []) (source : String)
    (hturns : 2 * t.size ≤ turns) :
    c.lower? turns source s = some (Tree.lower source t).arena := by
  obtain ⟨s', hs', hall⟩ := h.covers source t rfl s none [] #[] hs
  have hlabel : c.label s = t.label := h.label hs rfl
  have hend (more : Nat) :
      c.run (more + 1) (.leave ⟨((t.number source 0).slots none).toArray, #[], s'⟩) =
        some ((t.number source 0).slots none).toArray := by
    rw [run, ascend?, h.nextSibling_root hs', h.parent_root hs']
  have henter := c.leads_enter ⟨#[], #[], s⟩
  rw [visit_root, hlabel] at henter
  -- one turn for the root, those for all below it, and one more to find that the walk is over
  obtain ⟨more, rfl⟩ : ∃ more, turns = (more + 1) + (1 + 2 * ParseTree.sizeAll t.children) := by
    cases t with
    | node l ts =>
      rw [ParseTree.size] at hturns
      exact ⟨turns - (2 + 2 * ParseTree.sizeAll ts), by rw [ParseTree.children]; omega⟩
  rw [lower?, henter.trans hall (more + 1)]
  exact (congrArg _ (hend more)).trans (by simp [Tree.arena, Tree.lower, Tree.ofRoot, Node.slots])

end Cursor

end ApiSurface.Syntax
