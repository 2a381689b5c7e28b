import ApiSurface.Proofs.Project.Queue
import ApiSurface.Proofs.Routing.Join

/-!
# Effective prefixes

Effective prefixes are computed in the order in which the queue gives out the groups. As parents
come first, the prefix of a group is computed from the final one of its parent, and the table of
all prefixes solves one equation for each group that is reached (`knownPrefix?_prefixes`).

Along a lineage the equations unfold to one list of fragments, `Graph.fragments`: what the root
declares, and then what every kept edge adds on the way down. Joining level by level gives the same
path as joining that list (`knownPrefix?_of_lineage`).
-/

namespace ApiSurface.Project.Graph

open ApiSurface.Routing (joinPaths joinPresent joinPaths_cons_joinPaths)

variable {g : Graph} {i : Nat}

/-! ### The table of prefixes -/

theorem knownPrefix?_addPrefix (known : List (Nat × String)) (i j : Nat) :
    knownPrefix? (g.addPrefix known i) j
      = if i = j then some (g.effective (knownPrefix? known) i) else knownPrefix? known j := by
  by_cases h : i = j <;> simp [knownPrefix?, addPrefix, h]

/-- A prefix depends on nothing but the prefix of the parent. -/
theorem effective_congr {known known' : Nat → Option String}
    (h : ∀ e, g.kept? i = some e → known e.parent = known' e.parent) :
    g.effective known i = g.effective known' i := by
  cases hk : g.kept? i with
  | none => simp only [effective, hk]
  | some e => simp only [effective, hk, h e hk]

/-- The table has a prefix for each listed group, which solves the equation of the group, and for
no other one. -/
def Solves (g : Graph) (known : List (Nat × String)) (l : List Nat) : Prop :=
  ∀ i, knownPrefix? known i
    = if i ∈ l then some (g.effective (knownPrefix? known) i) else none

/-- A group with its parent in the table is added. No equation reads its prefix, so the others
still hold. -/
theorem Solves.addPrefix {known : List (Nat × String)} {l : List Nat} {x : Nat}
    (h : g.Solves known l) (hx : x ∉ l) (hpf : g.ParentsFirst (l ++ [x])) :
    g.Solves (g.addPrefix known x) (l ++ [x]) := by
  have hkeep : ∀ j ∈ l ++ [x],
      g.effective (knownPrefix? known) j = g.effective (knownPrefix? (g.addPrefix known x)) j := by
    -- the parent of a listed group is listed before `x`
    refine fun j hj => effective_congr fun e he => ?_
    have hne : x ≠ e.parent := fun heq => hx (heq ▸ hpf.parent_mem_of_concat hj he)
    rw [knownPrefix?_addPrefix, if_neg hne]
  intro i
  rw [knownPrefix?_addPrefix]
  split
  case isTrue hi =>
    subst hi
    rw [if_pos (by simp), hkeep x (by simp)]
  case isFalse hi =>
    rw [h i]
    by_cases hl : i ∈ l
    · rw [if_pos hl, if_pos (by simp [hl]), hkeep i (by simp [hl])]
    · rw [if_neg hl, if_neg (by simp [hl, Ne.symm hi])]

/-- A whole run over a list in which parents come first. -/
theorem solves_foldl {l : List Nat} (hnodup : l.Nodup) (hpf : g.ParentsFirst l) :
    g.Solves (l.foldl g.addPrefix []) l := by
  induction l using List.reverseRecOn with
  | nil => exact fun i => by simp [knownPrefix?]
  | append_singleton l x ih =>
    obtain ⟨hl, -, hdisj⟩ := List.nodup_append'.mp hnodup
    rw [List.foldl_append, List.foldl_cons, List.foldl_nil]
    exact (ih hl hpf.of_concat).addPrefix (fun hx => hdisj hx List.mem_cons_self) hpf

theorem solves_prefixes (g : Graph) : g.Solves g.prefixes g.reached :=
  solves_foldl (nodup_reached g) (parentsFirst_reached g)

/-- The prefix of a group that is reached, from the final prefix of its parent. -/
theorem knownPrefix?_prefixes (hi : i ∈ g.reached) :
    knownPrefix? g.prefixes i = some (g.effective (knownPrefix? g.prefixes) i) := by
  rw [solves_prefixes g i, if_pos hi]

theorem knownPrefix?_prefixes_eq_none_iff :
    knownPrefix? g.prefixes i = none ↔ i ∉ g.reached := by
  rw [solves_prefixes g i]
  split <;> simp_all

/-- The prefix that a group of the run got is its final one. -/
theorem knownPrefix?_foldl_of_prefix {before behind : List Nat}
    (h : g.reached = before ++ behind) (hi : i ∈ before) :
    knownPrefix? (before.foldl g.addPrefix []) i = knownPrefix? g.prefixes i := by
  have hnot : i ∉ behind := by
    have hnodup := h ▸ nodup_reached g
    exact fun hb => (List.nodup_append'.mp hnodup).2.2 hi hb
  rw [prefixes, h, List.foldl_append]
  -- the groups behind add prefixes of their own only
  generalize before.foldl g.addPrefix [] = known
  clear h hi
  induction behind generalizing known with
  | nil => rfl
  | cons x behind ih =>
    rw [List.mem_cons, not_or] at hnot
    have hx : knownPrefix? (g.addPrefix known x) i = knownPrefix? known i := by
      rw [knownPrefix?_addPrefix, if_neg (Ne.symm hnot.1)]
    rw [List.foldl_cons, ← ih hnot.2 (g.addPrefix known x), hx]

/-! ### Fragments along a lineage -/

/-- What a kept edge adds to the path: the prefix of the include, and behind it the one that the
child declares. When the include replaces the prefix of the child and has one, it stands alone. -/
def edgeFragments (g : Graph) (e : Edge) : List String :=
  match e.mount.mountPrefix with
  | none => (g.declared? e.child).toList
  | some p => if e.mount.replacesPrefix then [p] else p :: (g.declared? e.child).toList

/-- The fragments of a lineage from the root down. -/
def fragments (g : Graph) (root : Nat) (es : List Edge) : List String :=
  (g.declared? root).toList ++ es.flatMap g.edgeFragments

theorem fragments_nil (root : Nat) : g.fragments root [] = (g.declared? root).toList := by
  simp [fragments]

theorem fragments_concat (root : Nat) (es : List Edge) (e : Edge) :
    g.fragments root (es ++ [e]) = g.fragments root es ++ g.edgeFragments e := by
  simp [fragments]

/-- Going down one edge joins its fragments to the prefix of the parent. -/
theorem under_eq_joinPaths (base : String) (e : Edge) :
    under base e (g.declared? e.child) = joinPaths (base :: g.edgeFragments e) := by
  unfold under edgeFragments
  cases hm : e.mount.mountPrefix with
  | none => cases hd : g.declared? e.child <;> simp [joinPresent]
  | some p =>
    cases hr : e.mount.replacesPrefix with
    | true => simp [joinPresent]
    | false => cases hd : g.declared? e.child <;> simp [joinPresent]

theorem joinPresent_singleton (o : Option String) : joinPresent [o] = joinPaths o.toList := by
  cases o <;> rfl

/-- **Level by level or at once.** The effective prefix of a group with a lineage is the path of
the fragments along it. -/
theorem knownPrefix?_of_lineage {root : Nat} {es : List Edge} (hi : i < g.size)
    (hl : g.Lineage root es i) :
    knownPrefix? g.prefixes i = some (joinPaths (g.fragments root es)) := by
  induction hl with
  | root hr =>
    rw [knownPrefix?_prefixes ((mem_reached_iff hi).mpr (grounded_of_root hr)), effective, hr,
      fragments_nil]
    exact congrArg some (joinPresent_singleton _)
  | @under es e i hl hk ih =>
    have hreached := (mem_reached_iff hi).mpr ⟨root, es ++ [e], .under hl hk⟩
    have hparent := ih (parent_lt_of_kept? hk)
    calc knownPrefix? g.prefixes i
        = some (under ((knownPrefix? g.prefixes e.parent).getD "") e (g.declared? i)) := by
          rw [knownPrefix?_prefixes hreached, effective, hk]
      _ = some (joinPaths (joinPaths (g.fragments root es) :: g.edgeFragments e)) := by
          rw [hparent, ← child_of_kept? hk, under_eq_joinPaths, Option.getD_some]
      _ = some (joinPaths (g.fragments root (es ++ [e]))) := by
          rw [joinPaths_cons_joinPaths, fragments_concat]

/-- A mount that replaces a prefix, below a group without one, and a group that includes itself. -/
private def mixed : Graph where
  groups := [none, some "/api/", some "/old", some "/loop"].map fun p =>
    { (default : RouteGroup) with declaredPrefix := p }
  edges := [⟨0, 1, default⟩,
    ⟨1, 2, { (default : GroupInclude) with mountPrefix := some "v1", replacesPrefix := true }⟩,
    ⟨3, 3, default⟩]
  lt_of_mem_edges := by decide

example : mixed.prefixes = [(2, "/api/v1"), (1, "/api/"), (0, "/")] := by decide

end ApiSurface.Project.Graph
