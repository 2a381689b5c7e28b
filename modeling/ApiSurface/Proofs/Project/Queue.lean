import Mathlib.Data.List.Range
import ApiSurface.Proofs.Project.Forest

/-!
# The queue of groups

The queue of `Graph.walk` starts with the roots and takes in the groups under each one that it
gives out. What the loop preserves is `Frontier`: nothing is queued twice, a group is queued when
it is a root or its parent was taken off, and parents stand before their children. As no group is
queued twice, the queue runs empty within as many steps as there are groups
(`drains_reached`), and the groups that were taken off are those whose chain ends
(`mem_reached_iff`).
-/

namespace ApiSurface.Project.Graph

variable {g : Graph}

/-- The loop that starts with the queue takes off the listed groups, one after the other, and then
finds the queue empty. -/
inductive Drains (g : Graph) : List Nat → List Nat → Prop
  | nil : Drains g [] []
  | cons {i : Nat} {queue taken : List Nat} :
      Drains g (queue ++ g.childrenOf i) taken → Drains g (i :: queue) (i :: taken)

theorem mem_roots_iff {i : Nat} : i ∈ g.roots ↔ i < g.size ∧ g.kept? i = none := by
  simp [roots]

theorem mem_childrenOf_iff {i c : Nat} :
    c ∈ g.childrenOf i ↔ c < g.size ∧ ∃ e, g.kept? c = some e ∧ e.parent = i := by
  simp [childrenOf, Option.any_eq_true]

theorem nodup_roots (g : Graph) : g.roots.Nodup := List.nodup_range.filter _

theorem nodup_childrenOf (g : Graph) (i : Nat) : (g.childrenOf i).Nodup := List.nodup_range.filter _

/-! ### Parents before children -/

/-- In the list every group stands behind its parent. -/
def ParentsFirst (g : Graph) (l : List Nat) : Prop :=
  ∀ before i behind, l = before ++ i :: behind → ∀ e, g.kept? i = some e → e.parent ∈ before

theorem ParentsFirst.append {l new : List Nat} (h : g.ParentsFirst l)
    (hnew : ∀ i ∈ new, ∀ e, g.kept? i = some e → e.parent ∈ l) : g.ParentsFirst (l ++ new) := by
  intro before i behind heq e he
  rcases List.append_eq_append_iff.mp heq with ⟨m, rfl, hm⟩ | ⟨m, rfl, hm⟩
  · exact List.mem_append_left _ (hnew i (hm ▸ by simp) e he)
  · cases m with
    | nil =>
      rw [List.nil_append] at hm
      simpa using hnew i (hm ▸ List.mem_cons_self) e he
    | cons j m =>
      obtain ⟨rfl, -⟩ := List.cons.inj hm
      exact h before i m rfl e he

theorem ParentsFirst.of_concat {l : List Nat} {i : Nat} (h : g.ParentsFirst (l ++ [i])) :
    g.ParentsFirst l := fun before j behind heq =>
  h before j (behind ++ [i]) (by simp [heq])

theorem ParentsFirst.parent_mem_of_concat {l : List Nat} {i j : Nat} {e : Edge}
    (h : g.ParentsFirst (l ++ [i])) (hj : j ∈ l ++ [i]) (he : g.kept? j = some e) :
    e.parent ∈ l := by
  rcases List.mem_append.mp hj with hj | hj
  · obtain ⟨before, behind, rfl⟩ := List.append_of_mem hj
    exact List.mem_append_left _ (h.of_concat before j behind rfl e he)
  · obtain rfl := List.mem_singleton.mp hj
    exact h l j [] rfl e he

/-- Behind its parents every group has a lineage. -/
theorem ParentsFirst.grounded {l : List Nat} (h : g.ParentsFirst l) : ∀ i ∈ l, g.Grounded i := by
  induction l using List.reverseRecOn with
  | nil => simp
  | append_singleton l i ih =>
    intro j hj
    cases hk : g.kept? j with
    | none => exact grounded_of_root hk
    | some e =>
      exact (grounded_iff_parent hk).mpr (ih h.of_concat e.parent (h.parent_mem_of_concat hj hk))

/-! ### What the loop preserves -/

/-- The state of the loop: `taken` are the groups that were taken off the queue so far. -/
structure Frontier (g : Graph) (taken queue : List Nat) : Prop where
  /-- No group is queued twice. -/
  nodup : (taken ++ queue).Nodup
  /-- A group is queued when it is a root, or once its parent was taken off. -/
  mem_iff : ∀ i, i ∈ taken ++ queue ↔
    i < g.size ∧ ∀ e, g.kept? i = some e → e.parent ∈ taken
  parentsFirst : g.ParentsFirst (taken ++ queue)

theorem Frontier.start (g : Graph) : g.Frontier [] g.roots where
  nodup := nodup_roots g
  mem_iff i := by
    cases hk : g.kept? i <;> simp [mem_roots_iff, hk]
  parentsFirst before i behind heq e he := by
    have hi : i ∈ g.roots := by
      rw [← List.nil_append g.roots, heq]
      simp
    rw [(mem_roots_iff.mp hi).2] at he
    cases he

/-- One group is taken off the queue, and the groups under it are appended. -/
theorem Frontier.step {i : Nat} {taken queue : List Nat} (h : g.Frontier taken (i :: queue)) :
    g.Frontier (taken ++ [i]) (queue ++ g.childrenOf i) := by
  have hassoc : (taken ++ [i]) ++ (queue ++ g.childrenOf i)
      = (taken ++ i :: queue) ++ g.childrenOf i := by simp
  have hnot : i ∉ taken := by
    have hnodup := h.nodup
    rw [List.nodup_append_comm, List.cons_append, List.nodup_cons] at hnodup
    exact fun hi => hnodup.1 (List.mem_append_right _ hi)
  refine ⟨?_, fun c => ?_, ?_⟩
  · rw [hassoc, List.nodup_append']
    refine ⟨h.nodup, nodup_childrenOf g i, fun c hc hchild => ?_⟩
    -- a group under `i` that is queued already would have `i` among the groups taken off
    obtain ⟨-, e, he, hp⟩ := mem_childrenOf_iff.mp hchild
    exact hnot (hp ▸ ((h.mem_iff c).mp hc).2 e he)
  · rw [hassoc, List.mem_append, h.mem_iff, mem_childrenOf_iff]
    constructor
    · rintro (⟨hc, hp⟩ | ⟨hc, e, he, rfl⟩)
      · exact ⟨hc, fun e he => List.mem_append_left _ (hp e he)⟩
      · refine ⟨hc, fun e' he' => ?_⟩
        obtain rfl : e = e' := Option.some.inj (he.symm.trans he')
        simp
    · rintro ⟨hc, hp⟩
      cases hk : g.kept? c with
      | none => exact .inl ⟨hc, by simp⟩
      | some e =>
        rcases List.mem_append.mp (hp e hk) with h' | h'
        · exact .inl ⟨hc, fun e' he' => by cases he'; exact h'⟩
        · exact .inr ⟨hc, e, rfl, List.mem_singleton.mp h'⟩
  · rw [hassoc]
    refine h.parentsFirst.append fun c hc e he => ?_
    obtain ⟨-, e', he', rfl⟩ := mem_childrenOf_iff.mp hc
    obtain rfl : e = e' := Option.some.inj (he.symm.trans he')
    simp

/-- The loop holds no more groups than there are. -/
theorem Frontier.length_le {taken queue : List Nat} (h : g.Frontier taken queue) :
    taken.length + queue.length ≤ g.size := by
  have hsub : taken ++ queue ⊆ List.range g.size := fun i hi =>
    List.mem_range.mpr ((h.mem_iff i).mp hi).1
  have hle := (h.nodup.subperm hsub).length_le
  rwa [List.length_append, List.length_range] at hle

/-- A whole run: with as many steps as there are groups left the queue runs empty, and the
invariant holds at the end. -/
theorem Frontier.run {fuel : Nat} {taken queue : List Nat} (h : g.Frontier taken queue)
    (hfuel : g.size ≤ taken.length + fuel) :
    g.Drains queue (g.walk fuel queue) ∧ g.Frontier (taken ++ g.walk fuel queue) [] := by
  induction fuel generalizing taken queue with
  | zero =>
    -- as many groups were taken off as there are, so none is left to be queued
    have hle := h.length_le
    obtain rfl : queue = [] := List.eq_nil_of_length_eq_zero (by omega)
    exact ⟨.nil, by simpa [walk] using h⟩
  | succ fuel ih =>
    cases queue with
    | nil => exact ⟨.nil, by simpa [walk] using h⟩
    | cons i queue =>
      obtain ⟨hdrains, hend⟩ := ih h.step (by simp; omega)
      exact ⟨.cons hdrains, by simpa [walk] using hend⟩

/-! ### The groups that are reached -/

private theorem frontier_reached (g : Graph) : g.Frontier g.reached [] :=
  ((Frontier.start g).run (by simp)).2

/-- **The queue runs empty**, after it gave out the groups that are reached. -/
theorem drains_reached (g : Graph) : g.Drains g.roots g.reached :=
  ((Frontier.start g).run (by simp)).1

/-- No group is taken off the queue twice. -/
theorem nodup_reached (g : Graph) : g.reached.Nodup := by
  simpa using (frontier_reached g).nodup

theorem parentsFirst_reached (g : Graph) : g.ParentsFirst g.reached := by
  simpa using (frontier_reached g).parentsFirst

/-- A group is reached when it is a root or its parent is reached. -/
theorem mem_reached_iff_parent {i : Nat} :
    i ∈ g.reached ↔ i < g.size ∧ ∀ e, g.kept? i = some e → e.parent ∈ g.reached := by
  simpa using (frontier_reached g).mem_iff i

/-- The groups that are reached are those with a lineage. -/
theorem mem_reached_iff {i : Nat} (hi : i < g.size) : i ∈ g.reached ↔ g.Grounded i := by
  refine ⟨(parentsFirst_reached g).grounded i, ?_⟩
  rintro ⟨root, es, hl⟩
  induction hl with
  | root hr => exact mem_reached_iff_parent.mpr ⟨hi, fun e he => by rw [hr] at he; cases he⟩
  | under _ hk ih =>
    refine mem_reached_iff_parent.mpr ⟨hi, fun e he => ?_⟩
    obtain rfl : _ = e := Option.some.inj (hk.symm.trans he)
    exact ih (parent_lt_of_kept? hk)

end ApiSurface.Project.Graph
