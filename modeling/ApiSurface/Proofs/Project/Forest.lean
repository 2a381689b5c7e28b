import Mathlib.Data.Fintype.Pigeonhole
import ApiSurface.Project.Groups

/-!
# The forest of groups

Every group has at most one kept edge above it, so the groups form chains. Going up from a group
either ends at a root, and then the kept edges on the way make up its **lineage**, or it never
ends (`not_grounded_iff_endless`). As there are finitely many groups, it never ends exactly when the
group lies on or below a cycle (`endless_iff_below_cycle`).
-/

namespace ApiSurface.Project.Graph

variable {g : Graph} {i : Nat} {e : Edge}

/-! ### Kept edges -/

theorem mem_edges_of_kept? (h : g.kept? i = some e) : e ∈ g.edges := List.mem_of_find?_eq_some h

theorem child_of_kept? (h : g.kept? i = some e) : e.child = i :=
  beq_iff_eq.mp (List.find?_some h :)

theorem parent_lt_of_kept? (h : g.kept? i = some e) : e.parent < g.size :=
  (g.lt_of_mem_edges e (mem_edges_of_kept? h)).1

/-! ### Going up -/

/-- The group that a group is kept under. -/
def parent? (g : Graph) (i : Nat) : Option Nat := (g.kept? i).map (·.parent)

/-- The group that going up `n` times leads to. -/
def ancestor? (g : Graph) : Nat → Nat → Option Nat
  | 0, i => some i
  | n + 1, i => (g.parent? i).bind (g.ancestor? n)

/-- The kept edges `es` lead down from a group without a parent to the group `i`. -/
inductive Lineage (g : Graph) (root : Nat) : List Edge → Nat → Prop
  | root : g.kept? root = none → Lineage g root [] root
  | under {es : List Edge} {e : Edge} {i : Nat} :
      Lineage g root es e.parent → g.kept? i = some e → Lineage g root (es ++ [e]) i

/-- Going up from a group ends at a root. -/
def Grounded (g : Graph) (i : Nat) : Prop := ∃ root es, g.Lineage root es i

/-- Going up from a group never ends. -/
def Endless (g : Graph) (i : Nat) : Prop := ∀ n, (g.ancestor? n i).isSome

theorem parent?_eq_some (h : g.kept? i = some e) : g.parent? i = some e.parent := by
  rw [parent?, h, Option.map_some]

theorem parent?_eq_none_iff : g.parent? i = none ↔ g.kept? i = none := Option.map_eq_none_iff

theorem ancestor?_succ (h : g.kept? i = some e) (n : Nat) :
    g.ancestor? (n + 1) i = g.ancestor? n e.parent := by
  rw [ancestor?, parent?_eq_some h, Option.bind_some]

theorem ancestor?_succ_of_root (h : g.kept? i = none) (n : Nat) : g.ancestor? (n + 1) i = none := by
  rw [ancestor?, parent?_eq_none_iff.mpr h, Option.bind_none]

/-- Going up in two parts. -/
theorem ancestor?_add (m n i : Nat) :
    g.ancestor? (m + n) i = (g.ancestor? m i).bind (g.ancestor? n) := by
  induction m generalizing i with
  | zero => rw [Nat.zero_add]; rfl
  | succ m ih =>
    rw [Nat.add_right_comm, ancestor?, ancestor?, Option.bind_assoc]
    exact congrArg _ (funext ih)

theorem ancestor?_lt {n j : Nat} (hi : i < g.size) (h : g.ancestor? n i = some j) : j < g.size := by
  induction n generalizing i with
  | zero => exact Option.some.inj h ▸ hi
  | succ n ih =>
    cases hk : g.kept? i with
    | none => rw [ancestor?_succ_of_root hk] at h; cases h
    | some e => exact ih (parent_lt_of_kept? hk) (ancestor?_succ hk n ▸ h)

theorem grounded_of_root (h : g.kept? i = none) : g.Grounded i := ⟨i, [], .root h⟩

/-- A group has a lineage when its parent has one. -/
theorem grounded_iff_parent (h : g.kept? i = some e) : g.Grounded i ↔ g.Grounded e.parent := by
  constructor
  · rintro ⟨root, es, hl⟩
    cases hl with
    | root hr => rw [hr] at h; cases h
    | under hl hk =>
      obtain rfl : _ = e := Option.some.inj (hk.symm.trans h)
      exact ⟨root, _, hl⟩
  · rintro ⟨root, es, hl⟩
    exact ⟨root, es ++ [e], .under hl h⟩

/-- A lineage is a number of steps up to a root. -/
theorem grounded_iff_ancestor? :
    g.Grounded i ↔ ∃ n root, g.ancestor? n i = some root ∧ g.kept? root = none := by
  constructor
  · rintro ⟨root, es, hl⟩
    induction hl with
    | root h => exact ⟨0, root, rfl, h⟩
    | under _ hk ih =>
      obtain ⟨n, r, hn, hr⟩ := ih
      exact ⟨n + 1, r, (ancestor?_succ hk n).trans hn, hr⟩
  · rintro ⟨n, root, hn, hr⟩
    induction n generalizing i with
    | zero => exact Option.some.inj hn ▸ grounded_of_root hr
    | succ n ih =>
      cases hk : g.kept? i with
      | none => exact grounded_of_root hk
      | some e => exact (grounded_iff_parent hk).mpr (ih (ancestor?_succ hk n ▸ hn))

/-- Going up ends at a root or never. -/
theorem not_grounded_iff_endless : ¬ g.Grounded i ↔ g.Endless i := by
  constructor
  · intro hg n
    induction n generalizing i with
    | zero => rfl
    | succ n ih =>
      cases hk : g.kept? i with
      | none => exact absurd (grounded_of_root hk) hg
      | some e =>
        rw [ancestor?_succ hk]
        exact ih fun hp => hg ((grounded_iff_parent hk).mpr hp)
  · intro he hg
    obtain ⟨n, root, hn, hr⟩ := grounded_iff_ancestor?.mp hg
    have hend := he (n + 1)
    rw [ancestor?_add, hn, Option.bind_some, ancestor?_succ_of_root hr] at hend
    cases hend

/-! ### Cycles -/

/-- Going up from a group leads to a group that is its own ancestor. -/
def BelowCycle (g : Graph) (i : Nat) : Prop :=
  ∃ n j, g.ancestor? n i = some j ∧ ∃ m, 0 < m ∧ g.ancestor? m j = some j

/-- A group has a lineage when an ancestor has one. -/
theorem grounded_iff_of_ancestor? {n j : Nat} (h : g.ancestor? n i = some j) :
    g.Grounded i ↔ g.Grounded j := by
  induction n generalizing i with
  | zero => rw [Option.some.inj h]
  | succ n ih =>
    cases hk : g.kept? i with
    | none => rw [ancestor?_succ_of_root hk] at h; cases h
    | some e => rw [grounded_iff_parent hk, ih (ancestor?_succ hk n ▸ h)]

theorem ancestor?_mul {j m : Nat} (h : g.ancestor? m j = some j) (n : Nat) :
    g.ancestor? (n * m) j = some j := by
  induction n with
  | zero => rw [Nat.zero_mul]; rfl
  | succ n ih => rw [Nat.succ_mul, ancestor?_add, ih, Option.bind_some, h]

/-- As there are finitely many groups, one that has ancestors without end meets one of them
twice. -/
theorem endless_iff_below_cycle (hi : i < g.size) : g.Endless i ↔ g.BelowCycle i := by
  constructor
  · intro he
    choose a ha using fun n => Option.isSome_iff_exists.mp (he n)
    obtain ⟨m, n, hmn, heq⟩ := Finite.exists_ne_map_eq_of_infinite
      fun n => (⟨a n, ancestor?_lt hi (ha n)⟩ : Fin g.size)
    have heq : a m = a n := congrArg Fin.val heq
    -- the two numbers of steps lead to the same group, so their difference leads back to it
    have hback : ∀ m n, m < n → a m = a n → g.BelowCycle i := by
      intro m n hlt heq
      refine ⟨m, a m, ha m, n - m, Nat.sub_pos_of_lt hlt, ?_⟩
      have hn := ha n
      rwa [← Nat.add_sub_cancel' hlt.le, ancestor?_add, ha m, Option.bind_some,
        Nat.add_sub_cancel' hlt.le, ← heq] at hn
    rcases Nat.lt_or_gt_of_ne hmn with h | h
    · exact hback m n h heq
    · exact hback n m h heq.symm
  · rintro ⟨n, j, hj, m, hm, hcycle⟩
    rw [← not_grounded_iff_endless, grounded_iff_of_ancestor? hj, not_grounded_iff_endless]
    intro n
    have hle : n ≤ n * m := Nat.le_mul_of_pos_right n hm
    have hround := ancestor?_mul hcycle n
    rw [← Nat.add_sub_cancel' hle, ancestor?_add] at hround
    obtain ⟨k, hk, -⟩ := Option.bind_eq_some_iff.mp hround
    exact Option.isSome_of_eq_some hk

end ApiSurface.Project.Graph
