import ApiSurface.Proofs.Project.Recognition

/-!
# The sweep in which a class is recognised

A sweep updates the marks in place, so a class sees what the sweep has already done to the classes
in front of it and what the sweep before left of all others (`kind?_sweep`). A class without a kind
of its own therefore takes the kind of the first base that is recognised **in time**, which is
not always the first of its bases that is ever recognised, and later sweeps do not revise it
(`kind?_of_first_in_time`).

Which bases are in time depends on the order of the classes. Where a class and all that it reaches
stand behind their bases, one sweep is enough and every base is in time (`kind?_marks_of_behind`).
-/

namespace ApiSurface.Project.Hierarchy

variable {h : Hierarchy} {m : Marks} {i j b n : Nat} {k : SchemaKind}

private theorem findSome?_congr {α β : Type} {f g : α → Option β} {l : List α}
    (hfg : ∀ a ∈ l, f a = g a) : l.findSome? f = l.findSome? g := by
  induction l with
  | nil => rfl
  | cons a l ih =>
    rw [List.findSome?_cons, List.findSome?_cons, hfg a List.mem_cons_self,
      ih fun b hb => hfg b (List.mem_cons_of_mem a hb)]

/-! ### One sweep -/

/-- The marks when the sweep comes to a class. -/
def sweepTo (h : Hierarchy) (m : Marks) (i : Nat) : Marks := (List.range i).foldl h.markOne m

theorem sweepTo_succ (h : Hierarchy) (m : Marks) (i : Nat) :
    h.sweepTo m (i + 1) = h.markOne (h.sweepTo m i) i := by
  rw [sweepTo, List.range_succ, List.foldl_append]
  rfl

theorem fits_sweepTo (hm : h.Fits m) (i : Nat) : h.Fits (h.sweepTo m i) := by
  induction i with
  | zero => exact hm
  | succ i ih => exact sweepTo_succ h m i ▸ ih.markOne i

/-- Updating one class leaves the kinds of the others. -/
theorem kind?_markOne_of_ne (hij : i ≠ j) : (h.markOne m i).kind? j = m.kind? j := by
  simp [Marks.kind?, markOne, hij]

/-- A class has what it had before until the sweep has passed it. -/
theorem kind?_sweepTo_of_le (hij : i ≤ j) : (h.sweepTo m i).kind? j = m.kind? j := by
  induction i with
  | zero => rfl
  | succ i ih => rw [sweepTo_succ, kind?_markOne_of_ne (by omega), ih (by omega)]

/-- Behind a class the sweep leaves its kind. -/
theorem kind?_sweepTo_of_lt (hj : j < i) :
    (h.sweepTo m i).kind? j = (h.sweepTo m (j + 1)).kind? j := by
  induction i, hj using Nat.le_induction with
  | base => rfl
  | succ i hij ih => rw [sweepTo_succ, kind?_markOne_of_ne (by omega), ih]

/-- What class `i` sees of the kinds in the middle of a sweep: those that the sweep leaves of the
classes in front of it, and those from before of the others. -/
theorem kind?_sweepTo (hi : i ≤ h.size) (b : Nat) :
    (h.sweepTo m i).kind? b = if b < i then (h.sweep m).kind? b else m.kind? b := by
  split
  · next hb =>
    have hsweep : (h.sweep m).kind? b = (h.sweepTo m (b + 1)).kind? b :=
      kind?_sweepTo_of_lt (Nat.lt_of_lt_of_le hb hi)
    rw [hsweep, kind?_sweepTo_of_lt hb]
  · next hb => exact kind?_sweepTo_of_le (Nat.le_of_not_lt hb)

/-- **One sweep, in place.** A known kind stays, and any other class gets the first kind among its
bases. Those in front of the class count as the sweep leaves them. -/
theorem kind?_sweep (hm : h.Fits m) (hi : i < h.size) :
    (h.sweep m).kind? i = (m.kind? i).or ((h.basesOf i).findSome? fun b =>
      if b < i then (h.sweep m).kind? b else m.kind? b) := by
  have hseen : (h.sweepTo m i).kind?
      = fun b => if b < i then (h.sweep m).kind? b else m.kind? b :=
    funext (kind?_sweepTo (Nat.le_of_lt hi))
  have hsweep : (h.sweep m).kind? i = (h.sweepTo m (i + 1)).kind? i := kind?_sweepTo_of_lt hi
  rw [hsweep, sweepTo_succ, kind?_markOne (fits_sweepTo hm i) hi, if_pos rfl,
    kind?_sweepTo_of_le (Nat.le_refl i), hseen]

theorem kind?_sweep_of_some (hk : m.kind? i = some k) : (h.sweep m).kind? i = some k :=
  List.foldlRecOn (motive := fun m => m.kind? i = some k) (List.range h.size) h.markOne hk
    fun _ hm j _ => kind?_markOne_of_some j hm

/-! ### Sweep by sweep -/

/-- The marks after a number of sweeps. -/
def after (h : Hierarchy) (n : Nat) : Marks := h.sweep^[n] h.directMarks

theorem after_succ (h : Hierarchy) (n : Nat) : h.after (n + 1) = h.sweep (h.after n) :=
  Function.iterate_succ_apply' h.sweep n h.directMarks

theorem fits_after (h : Hierarchy) (n : Nat) : h.Fits (h.after n) := by
  induction n with
  | zero => exact .directMarks h
  | succ n ih => exact after_succ h n ▸ fits_sweepTo ih h.size

theorem kind?_after_zero (h : Hierarchy) (i : Nat) : (h.after 0).kind? i = h.directKind? i :=
  kind?_directMarks h i

theorem kind?_after_of_le {n' : Nat} (hn : n ≤ n') (hk : (h.after n).kind? i = some k) :
    (h.after n').kind? i = some k := by
  induction n', hn using Nat.le_induction with
  | base => exact hk
  | succ n' _ ih => exact after_succ h n' ▸ kind?_sweep_of_some ih

theorem Settles.exists_iterate {last : Marks} (hs : h.Settles m last) :
    ∃ n, last = h.sweep^[n] m := by
  induction hs with
  | stop => exact ⟨0, rfl⟩
  | again _ _ ih =>
    obtain ⟨n, rfl⟩ := ih
    exact ⟨n + 1, rfl⟩

/-- The last marks are those after some number of sweeps. -/
theorem exists_after_eq_marks (h : Hierarchy) : ∃ n, h.after n = h.marks := by
  obtain ⟨n, hn⟩ := (settles_marks h).exists_iterate
  exact ⟨n, hn.symm⟩

theorem kind?_marks_of_after (hk : (h.after n).kind? i = some k) : h.marks.kind? i = some k := by
  obtain ⟨last, hlast⟩ := exists_after_eq_marks h
  rcases Nat.le_total n last with hle | hle
  · exact hlast ▸ kind?_after_of_le hle hk
  · -- further sweeps change nothing
    have hstay : h.after n = h.marks := by
      clear hk
      induction n, hle using Nat.le_induction with
      | base => exact hlast
      | succ n _ ih => rw [after_succ, ih, (settles_marks h).sweep_eq]
    rwa [hstay] at hk

/-- There is one sweep in which a class is recognised that shows no kind by itself. -/
theorem exists_sweep_of_kind?_marks (hnone : h.directKind? i = none)
    (hk : h.marks.kind? i = some k) :
    ∃ n, (h.after n).kind? i = none ∧ (h.after (n + 1)).kind? i = some k := by
  obtain ⟨last, hlast⟩ := exists_after_eq_marks h
  have hlater : ∀ n, (h.after n).kind? i = some k →
      ∃ n, (h.after n).kind? i = none ∧ (h.after (n + 1)).kind? i = some k := by
    intro n hn
    induction n with
    | zero => rw [kind?_after_zero, hnone] at hn; cases hn
    | succ n ih =>
      cases hbefore : (h.after n).kind? i with
      | none => exact ⟨n, hbefore, hn⟩
      | some k' =>
        obtain rfl : k' = k :=
          Option.some.inj ((kind?_after_of_le (Nat.le_succ n) hbefore).symm.trans hn)
        exact ih hbefore
  exact hlater last (hlast ▸ hk)

/-! ### The base that gives the kind -/

/-- What class `i` sees of the kind of `b` in the sweep after the first `n`. -/
def seenKind? (h : Hierarchy) (n i b : Nat) : Option SchemaKind :=
  (h.after (if b < i then n + 1 else n)).kind? b

theorem kind?_after_succ (hi : i < h.size) (hnone : (h.after n).kind? i = none) :
    (h.after (n + 1)).kind? i = (h.basesOf i).findSome? (h.seenKind? n i) := by
  have hseen : h.seenKind? n i
      = fun b => if b < i then (h.sweep (h.after n)).kind? b else (h.after n).kind? b := by
    funext b
    rw [seenKind?, ← after_succ]
    split <;> rfl
  rw [after_succ, kind?_sweep (fits_after h n) hi, hnone, Option.none_or, hseen]

/-- A recognised class without a kind of its own has the kind of the first of its bases that is
recognised in time for the sweep which recognises the class. -/
theorem exists_first_in_time (hnone : h.directKind? i = none) (hk : h.marks.kind? i = some k) :
    ∃ n passed b rest, h.basesOf i = passed ++ b :: rest ∧ (h.after n).kind? i = none ∧
      (∀ c ∈ passed, h.seenKind? n i c = none) ∧ h.seenKind? n i b = some k ∧
      h.marks.kind? b = some k := by
  obtain ⟨n, hbefore, hafter⟩ := exists_sweep_of_kind?_marks hnone hk
  have hi : i < h.size := (fits_marks h).length_kinds ▸ lt_length_of_kind? hk
  rw [kind?_after_succ hi hbefore] at hafter
  obtain ⟨passed, b, rest, hbases, hb, hpassed⟩ := List.findSome?_eq_some_iff.mp hafter
  exact ⟨n, passed, b, rest, hbases, hbefore, hpassed, hb, kind?_marks_of_after hb⟩

/-! ### Classes behind their bases -/

/-- The class and all that it reaches stand behind their bases. -/
def StandsBehind (h : Hierarchy) (i : Nat) : Prop :=
  ∀ j b, h.Reaches i j → h.HasBase j b → b < j

theorem StandsBehind.lt (hi : h.StandsBehind i) (hb : b ∈ h.basesOf i) : b < i := hi i b .refl hb

theorem StandsBehind.base (hi : h.StandsBehind i) (hb : b ∈ h.basesOf i) : h.StandsBehind b :=
  fun j c hj hc => hi j c (.head hb hj) hc

theorem standsBehind_of_base_lt (hlt : ∀ i b, h.HasBase i b → b < i) (i : Nat) : h.StandsBehind i :=
  fun j b _ hb => hlt j b hb

/-- A class whose bases have no kind has its own one or none. -/
theorem kind?_marks_of_bases (hbases : ∀ b ∈ h.basesOf i, h.marks.kind? b = none) :
    h.marks.kind? i = h.directKind? i := by
  cases hdirect : h.directKind? i with
  | some k => exact (justified_marks h).of_direct i k hdirect
  | none =>
    by_contra hne
    obtain ⟨k, hk⟩ := Option.ne_none_iff_exists'.mp hne
    obtain ⟨b, hb, hbk⟩ := (justified_marks h).of_base i k hdirect hk
    rw [hbases b hb] at hbk
    cases hbk

theorem kind?_after_one (hbehind : h.StandsBehind i) (hi : i < h.size) :
    (h.after 1).kind? i
      = (h.directKind? i).or ((h.basesOf i).findSome? (h.after 1).kind?) := by
  rw [after_succ, kind?_sweep (fits_after h 0) hi, kind?_after_zero]
  exact congrArg _ (findSome?_congr fun b hb => if_pos (hbehind.lt hb))

/-- One sweep is enough for a class that stands behind its bases, with all that it reaches. -/
theorem StandsBehind.kind?_after_one_eq (hbehind : h.StandsBehind i) (hi : i < h.size) :
    (h.after 1).kind? i = h.marks.kind? i := by
  induction i using Nat.strong_induction_on with
  | _ i ih =>
  have hbases : ∀ b ∈ h.basesOf i, (h.after 1).kind? b = h.marks.kind? b := fun b hb =>
    ih b (hbehind.lt hb) (hbehind.base hb) ((hbehind.lt hb).trans hi)
  cases hk : (h.after 1).kind? i with
  | some k => exact (kind?_marks_of_after hk).symm
  | none =>
    -- no base has a kind after one sweep, and by induction none ever has
    rw [kind?_after_one hbehind hi, Option.or_eq_none_iff] at hk
    have hnone : ∀ b ∈ h.basesOf i, h.marks.kind? b = none := fun b hb =>
      hbases b hb ▸ List.findSome?_eq_none_iff.mp hk.2 b hb
    rw [kind?_marks_of_bases hnone, hk.1]

/-- A class that stands behind its bases, with all that it reaches, has the kind of the first of
them that has one, unless it shows one by itself. -/
theorem StandsBehind.kind?_marks (hbehind : h.StandsBehind i) (hi : i < h.size) :
    h.marks.kind? i = (h.directKind? i).or ((h.basesOf i).findSome? h.marks.kind?) := by
  rw [← hbehind.kind?_after_one_eq hi, kind?_after_one hbehind hi]
  exact congrArg _ (findSome?_congr fun b hb =>
    (hbehind.base hb).kind?_after_one_eq ((hbehind.lt hb).trans hi))

/-- The classes of the first hierarchy are among those of the second one, with their own kinds and
bases but in other places. -/
structure Moves (h h' : Hierarchy) (place : Nat → Nat) : Prop where
  lt_size : ∀ i < h.size, place i < h'.size
  basesOf : ∀ i < h.size, h'.basesOf (place i) = (h.basesOf i).map place
  directKind? : ∀ i < h.size, h'.directKind? (place i) = h.directKind? i

/-- The places of classes do not matter as long as they stand behind their bases. -/
theorem Moves.kind?_marks {h' : Hierarchy} {place : Nat → Nat} (hmoves : h.Moves h' place)
    (hi : i < h.size) (hbehind : h.StandsBehind i) (hbehind' : h'.StandsBehind (place i)) :
    h'.marks.kind? (place i) = h.marks.kind? i := by
  induction i using Nat.strong_induction_on with
  | _ i ih =>
  rw [hbehind.kind?_marks hi, hbehind'.kind?_marks (hmoves.lt_size i hi),
    hmoves.directKind? i hi, hmoves.basesOf i hi, List.findSome?_map]
  refine congrArg _ (findSome?_congr fun b hb => ?_)
  have hb' : place b ∈ h'.basesOf (place i) :=
    hmoves.basesOf i hi ▸ List.mem_map_of_mem hb
  exact ih b (hbehind.lt hb) ((hbehind.lt hb).trans hi) (hbehind.base hb) (hbehind'.base hb')

/-- **The first base in time.** A recognised class that shows no kind by itself is recognised in
one of the sweeps, and has the kind of the first of its bases that is seen with a kind there; the
bases before that one may be recognised later. Where the class and all that it reaches stand behind
their bases, that is the first of its bases that has a kind at all, and no other such order of the
classes gives another kind. -/
theorem kind?_of_first_in_time (h : Hierarchy) (i : Nat) (hi : i < h.size)
    (hnone : h.directKind? i = none) :
    (∀ k, h.marks.kind? i = some k → ∃ n passed b rest,
      h.basesOf i = passed ++ b :: rest ∧ (h.after n).kind? i = none ∧
      (∀ c ∈ passed, h.seenKind? n i c = none) ∧ h.seenKind? n i b = some k ∧
      h.marks.kind? b = some k) ∧
    (h.StandsBehind i → h.marks.kind? i = (h.basesOf i).findSome? h.marks.kind?) ∧
    (∀ h' place, h.Moves h' place → h.StandsBehind i → h'.StandsBehind (place i) →
      h'.marks.kind? (place i) = h.marks.kind? i) := by
  refine ⟨fun k hk => exists_first_in_time hnone hk, fun hbehind => ?_,
    fun h' place hmoves hbehind hbehind' => hmoves.kind?_marks hi hbehind hbehind'⟩
  rw [hbehind.kind?_marks hi, hnone, Option.none_or]

/-! ### Late bases -/

section LateBases

/-- A class of the given kind with bases that are imported from the module `b` or not at all. -/
private def shape (name : String) (place : Nat) (bases : List (String × Option String))
    (kind : Option SchemaKind) : ClassDecl :=
  { (default : ClassDecl) with
    name
    span := { (default : Span) with startByte := place }
    bases := bases.map fun (base, module) => ⟨base, base, module, none⟩
    directKind := kind }

/-- A class, a subclass of it, and a class of another kind. -/
private def kinds : List ClassDecl :=
  [shape "Base" 0 [] (some .pydantic), shape "Left" 1 [("Base", none)] none,
    shape "Right" 2 [] (some .dataclass)]

/-- The file of those classes, in the given order. -/
private def kindsFile (path : String) (classes : List ClassDecl) : FileFacts :=
  { FileFacts.empty path "python" with module := some "b", classes }

/-- A class in a file of its own, with bases of both kinds. -/
private def leafFile (path : String) : FileFacts :=
  { FileFacts.empty path "python" with
    module := some "a"
    classes := [shape "Leaf" 0 [("Left", some "b"), ("Right", some "b")] none] }

/-- The file of the bases comes first. -/
def basesFirst : Hierarchy := .ofFiles [kindsFile "a.py" kinds, leafFile "b.py"]

/-- The base of the other kind comes even before the others. -/
def basesTurned : Hierarchy :=
  .ofFiles [kindsFile "a.py" (kinds.drop 2 ++ kinds.take 2), leafFile "b.py"]

/-- The file of the bases comes last. -/
def basesLast : Hierarchy := .ofFiles [leafFile "a.py", kindsFile "b.py" kinds]

theorem base_lt_basesFirst (i b : Nat) (hb : basesFirst.HasBase i b) : b < i := by
  have hlt : ∀ i < basesFirst.size, ∀ b ∈ basesFirst.basesOf i, b < i := by decide +kernel
  exact hlt i hb.lt_size b hb

theorem base_lt_basesTurned (i b : Nat) (hb : basesTurned.HasBase i b) : b < i := by
  have hlt : ∀ i < basesTurned.size, ∀ b ∈ basesTurned.basesOf i, b < i := by decide +kernel
  exact hlt i hb.lt_size b hb

/-- The leaf has the kind of its first base when its bases come first, in either order. -/
theorem kind?_of_first_in_time_basesFirst :
    basesFirst.directKind? 3 = none ∧
    (∃ n passed b rest, [1, 2] = passed ++ b :: rest ∧ (basesFirst.after n).kind? 3 = none ∧
      (∀ c ∈ passed, basesFirst.seenKind? n 3 c = none) ∧
      basesFirst.seenKind? n 3 b = some .pydantic ∧ basesFirst.marks.kind? b = some .pydantic) ∧
    basesFirst.marks.kind? 3 = some .pydantic ∧
    basesTurned.marks.kind? 3 = some .pydantic := by
  let place : Nat → Nat := fun i => if i = 3 then 3 else (i + 1) % 3
  have hdirect : basesFirst.directKind? 3 = none := by decide +kernel
  have hbases : basesFirst.basesOf 3 = [1, 2] := by decide +kernel
  have hbehind := standsBehind_of_base_lt base_lt_basesFirst
  have hbehind' := standsBehind_of_base_lt base_lt_basesTurned
  have hmoves : basesFirst.Moves basesTurned place :=
    ⟨by decide +kernel, by decide +kernel, by decide +kernel⟩
  obtain ⟨htime, hfirst, hplace⟩ :=
    kind?_of_first_in_time basesFirst 3 (by decide +kernel) hdirect
  have hkind : basesFirst.marks.kind? 3 = some .pydantic := by
    rw [hfirst (hbehind 3), hbases]
    decide +kernel
  have hturned : basesTurned.marks.kind? 3 = basesFirst.marks.kind? 3 :=
    hplace basesTurned place hmoves (hbehind 3) (hbehind' 3)
  exact ⟨hdirect, hbases ▸ htime .pydantic hkind, hkind, hturned.trans hkind⟩

/-- The leaf has the kind of its second base when its bases come last: the first one is not
recognised in time. -/
theorem kind?_marks_basesLast :
    basesLast.Acyclic ∧
    basesLast.directKind? 0 = none ∧
    basesLast.basesOf 0 = [2, 3] ∧
    basesLast.marks.kind? 0 = some .dataclass ∧
    (basesLast.basesOf 0).findSome? basesLast.marks.kind? = some .pydantic ∧
    basesFirst.marks.kind? 3 = some .pydantic := by
  refine ⟨acyclic_of_rank_lt (fun i => [3, 0, 1, 0][i]?.getD 0) fun i b hb => ?_,
    by decide +kernel, by decide +kernel, by decide +kernel, by decide +kernel, by decide +kernel⟩
  have hlt : ∀ i < basesLast.size, ∀ b ∈ basesLast.basesOf i,
      [3, 0, 1, 0][b]?.getD 0 < [3, 0, 1, 0][i]?.getD 0 := by decide +kernel
  exact hlt i hb.lt_size b hb

end LateBases

end ApiSurface.Project.Hierarchy
