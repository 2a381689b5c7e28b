import ApiSurface.Binding.Build
import ApiSurface.Proofs.Syntax.Layout

/-!
# Where statements stand

Statements that bind names stand in bodies: neither simple statements nor the headers of compound
ones hold any, and headers come before bodies (`KeepsStatements`). The one exception is a chain of
assignments, which all end together.

A tree is **regular** when it is laid out and keeps statements in their places at every node. In a
regular tree the items of a `with` statement follow one another (`pairwise_withItemsAll`).
-/

namespace ApiSurface.Binding

open ApiSurface.Syntax (Node Tree)

variable {n c : Node}

/-- The kinds of the statements that bind names and hold expressions only. -/
def simpleKinds : List String :=
  ["import_statement", "import_from_statement", "type_alias_statement"]

/-- The kinds of the statements that bind names and have bodies. -/
def compoundKinds : List String :=
  ["with_statement", "for_statement", "function_definition", "class_definition"]

/-- Whether the node is a statement that binds names. -/
def isBinder (n : Node) : Bool :=
  simpleKinds.contains n.kind || n.kind == "assignment" || compoundKinds.contains n.kind

/-- Whether a child of a compound statement holds statements. -/
def isBody (statement child : Node) : Bool :=
  child.field == some "body" ||
    (statement.kind == "for_statement" && child.field == some "alternative")

/-- The parts of the header of a compound statement that bind names. -/
def bindingParts (n : Node) : List Node :=
  match n.kind with
  | "with_statement" => withItemsAll n.children
  | "for_statement" => (n.childByField? "left").toList
  | "function_definition" => (n.childByField? "parameters").toList
  | _ => []

/-- No statement at or below the node binds a name. -/
def BindsNothing (n : Node) : Prop := ∀ m ∈ n.descendants, isBinder m = false

/-- Every statement at or below the node that binds a name is an assignment that ends at the
position. -/
def BindsAt (pos : Nat) (n : Node) : Prop :=
  ∀ m ∈ n.descendants, isBinder m = true → m.kind = "assignment" ∧ m.endByte = pos

instance (n : Node) : Decidable (BindsNothing n) :=
  inferInstanceAs (Decidable (∀ m ∈ n.descendants, isBinder m = false))

instance (pos : Nat) (n : Node) : Decidable (BindsAt pos n) :=
  inferInstanceAs (Decidable (∀ m ∈ n.descendants,
    isBinder m = true → m.kind = "assignment" ∧ m.endByte = pos))

/-- Below the node, statements that bind names stand only where statements may. -/
structure KeepsStatements (n : Node) : Prop where
  ofSimple : simpleKinds.contains n.kind = true → ∀ c ∈ n.children, BindsNothing c
  /-- An assignment may hold further ones that end with it. -/
  ofAssignment : n.kind = "assignment" → ∀ c ∈ n.children, BindsAt n.endByte c
  ofHeader : compoundKinds.contains n.kind = true →
    ∀ c ∈ n.children, isBody n c = false → BindsNothing c
  headerFirst : compoundKinds.contains n.kind = true →
    ∀ p ∈ bindingParts n, ∀ c ∈ n.children, isBody n c = true → p.endByte ≤ c.startByte
  /-- An item of a `with` statement is an expression with a target. -/
  ofItem : n.kind = "with_item" → withItemsAll n.children = []

instance (n : Node) : Decidable (KeepsStatements n) :=
  decidable_of_iff
    ((simpleKinds.contains n.kind = true → ∀ c ∈ n.children, BindsNothing c) ∧
      (n.kind = "assignment" → ∀ c ∈ n.children, BindsAt n.endByte c) ∧
      (compoundKinds.contains n.kind = true →
        ∀ c ∈ n.children, isBody n c = false → BindsNothing c) ∧
      (compoundKinds.contains n.kind = true →
        ∀ p ∈ bindingParts n, ∀ c ∈ n.children, isBody n c = true → p.endByte ≤ c.startByte) ∧
      (n.kind = "with_item" → (withItemsAll n.children).isEmpty = true))
    ⟨fun ⟨h₁, h₂, h₃, h₄, h₅⟩ => ⟨h₁, h₂, h₃, h₄, fun h => List.isEmpty_iff.mp (h₅ h)⟩,
      fun h => ⟨h.ofSimple, h.ofAssignment, h.ofHeader, h.headerFirst,
        fun hk => List.isEmpty_iff.mpr (h.ofItem hk)⟩⟩

/-- Everything at and below the node is laid out and keeps statements in their places. -/
def IsRegular (n : Node) : Prop := ∀ m ∈ n.descendants, m.IsLaidOut ∧ KeepsStatements m

instance (n : Node) : Decidable (IsRegular n) :=
  inferInstanceAs (Decidable (∀ m ∈ n.descendants, m.IsLaidOut ∧ KeepsStatements m))

namespace IsRegular

theorem laidOut (h : IsRegular n) : n.IsLaidOut := (h n n.self_mem_descendants).1

theorem keepsStatements (h : IsRegular n) : KeepsStatements n := (h n n.self_mem_descendants).2

theorem below (h : IsRegular n) (hc : c ∈ n.descendants) : IsRegular c := fun m hm =>
  h m (Node.mem_descendants_trans hc hm)

theorem child (h : IsRegular n) (hc : c ∈ n.children) : IsRegular c :=
  h.below (Node.child_mem_descendants hc)

/-- What lies below a node lies inside it. -/
theorem encloses (h : IsRegular n) (hc : c ∈ n.descendants) :
    n.startByte ≤ c.startByte ∧ c.endByte ≤ n.endByte :=
  Node.encloses_of_mem_descendants (fun m hm => (h m hm).1) hc

end IsRegular

theorem BindsNothing.child (h : BindsNothing n) (hc : c ∈ n.children) : BindsNothing c :=
  fun m hm => h m (Node.mem_descendants_of_mem_children hc hm)

theorem BindsAt.child {pos : Nat} (h : BindsAt pos n) (hc : c ∈ n.children) : BindsAt pos c :=
  fun m hm => h m (Node.mem_descendants_of_mem_children hc hm)

/-! ### Items of `with` statements -/

theorem withItemsAll_eq_flatMap (l : List Node) : withItemsAll l = l.flatMap withItems := by
  induction l with
  | nil => rfl
  | cons n l ih => rw [withItemsAll, ih, List.flatMap_cons]

theorem withItems_eq (n : Node) :
    withItems n = (if n.kind = "with_item" then [n] else []) ++
      (if n.kind = "with_statement" then [] else withItemsAll n.children) := by
  cases n with
  | mk i l t cs => rw [withItems, Node.children]

theorem mem_descendants_of_mem_withItems {m : Node} (hm : m ∈ withItems n) :
    m ∈ n.descendants := by
  induction n using Node.rec_children with
  | step n ih =>
    rw [withItems_eq, List.mem_append] at hm
    rcases hm with hm | hm
    · split at hm
      · exact List.mem_singleton.mp hm ▸ n.self_mem_descendants
      · simp at hm
    · split at hm
      · simp at hm
      · rw [withItemsAll_eq_flatMap] at hm
        obtain ⟨c, hc, hm⟩ := List.mem_flatMap.mp hm
        exact Node.mem_descendants_of_mem_children hc (ih c hc hm)

/-- Items of nodes that follow one another do so if the items of each node do. -/
private theorem pairwise_withItemsAll_of_children {l : List Node}
    (hreg : ∀ c ∈ l, IsRegular c) (hord : l.Pairwise fun a b => a.endByte ≤ b.startByte)
    (hitems : ∀ c ∈ l, (withItems c).Pairwise fun a b => a.endByte ≤ b.startByte) :
    (withItemsAll l).Pairwise fun a b => a.endByte ≤ b.startByte := by
  rw [withItemsAll_eq_flatMap, List.pairwise_flatMap]
  refine ⟨hitems, hord.imp_of_mem fun {a b} ha hb hab x hx y hy => ?_⟩
  have hxa := (hreg a ha).encloses (mem_descendants_of_mem_withItems hx)
  have hyb := (hreg b hb).encloses (mem_descendants_of_mem_withItems hy)
  exact Nat.le_trans hxa.2 (Nat.le_trans hab hyb.1)

/-- In a regular tree items follow one another. -/
theorem pairwise_withItems (h : IsRegular n) :
    (withItems n).Pairwise fun a b => a.endByte ≤ b.startByte := by
  induction n using Node.rec_children with
  | step n ih =>
    have hchildren := pairwise_withItemsAll_of_children (fun c hc => h.child hc) h.laidOut.inOrder
      fun c hc => ih c hc (h.child hc)
    rw [withItems_eq]
    by_cases hitem : n.kind = "with_item"
    · rw [h.keepsStatements.ofItem hitem]
      simp [hitem]
    · rw [if_neg hitem, List.nil_append]
      split
      · exact .nil
      · exact hchildren

/-- In a regular tree the items of a `with` statement follow one another. -/
theorem pairwise_withItemsAll (h : IsRegular n) :
    (withItemsAll n.children).Pairwise fun a b => a.endByte ≤ b.startByte :=
  pairwise_withItemsAll_of_children (fun _ hc => h.child hc) h.laidOut.inOrder
    fun _ hc => pairwise_withItems (h.child hc)

theorem encloses_of_mem_withItemsAll {m : Node} (h : IsRegular n)
    (hm : m ∈ withItemsAll n.children) :
    n.startByte ≤ m.startByte ∧ m.startByte ≤ m.endByte ∧ m.endByte ≤ n.endByte := by
  rw [withItemsAll_eq_flatMap] at hm
  obtain ⟨c, hc, hm⟩ := List.mem_flatMap.mp hm
  have hbelow := Node.mem_descendants_of_mem_children hc (mem_descendants_of_mem_withItems hm)
  have hin := h.encloses hbelow
  exact ⟨hin.1, (h m hbelow).1.forwards, hin.2⟩

end ApiSurface.Binding
