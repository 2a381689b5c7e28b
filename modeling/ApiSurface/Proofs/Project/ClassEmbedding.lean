import Mathlib.Logic.Function.Basic
import ApiSurface.Proofs.Project.Embedding
import ApiSurface.Proofs.Project.Merging
import ApiSurface.Proofs.Project.Sweeps

/-!
# Hierarchies with further classes

Where the classes of a hierarchy stand among further classes, in the same order and with the same
bases, they are recognised as the same kinds, get the same fields and show the same values, whatever
the further classes inherit from (`Hierarchy.Embeds.schema?_eq`). The order matters: in each sweep a
class sees what the sweep has done to the classes in front of it.
-/

namespace ApiSurface.Project

namespace Hierarchy

variable {σ : Nat → Nat} {h h' : Hierarchy} {m m' : Marks} {i j b : Nat} {l : List SchemaField}

/-- The classes of `h` stand among those of `h'` in the same order, with the same bases. -/
structure Embeds (σ : Nat → Nat) (h h' : Hierarchy) : Prop where
  strictMono : StrictMono σ
  getElem?_classes : ∀ i, h'.classes[σ i]? = h.classes[i]?
  basesOf_eq : ∀ i, h'.basesOf (σ i) = (h.basesOf i).map σ

/-- What is known about the classes of `h` is the same among the further ones. -/
def SameKinds (σ : Nat → Nat) (m m' : Marks) : Prop := ∀ i, m'.kind? (σ i) = m.kind? i

namespace Embeds

theorem lt_size_iff (he : Embeds σ h h') : σ i < h'.size ↔ i < h.size := by
  have hget := he.getElem?_classes i
  constructor <;> intro hi
  · rw [List.getElem?_eq_getElem hi] at hget
    exact (List.getElem?_eq_some_iff.mp hget.symm).1
  · rw [List.getElem?_eq_getElem (show i < h.classes.length from hi)] at hget
    exact (List.getElem?_eq_some_iff.mp hget).1

theorem directKind?_eq (he : Embeds σ h h') (i : Nat) : h'.directKind? (σ i) = h.directKind? i := by
  rw [directKind?, he.getElem?_classes, directKind?]

theorem declaresEnum_eq (he : Embeds σ h h') (i : Nat) :
    h'.declaresEnum (σ i) = h.declaresEnum i := by
  rw [declaresEnum, he.getElem?_classes, declaresEnum]

theorem hasBase_iff (he : Embeds σ h h') :
    h'.HasBase (σ i) j ↔ ∃ b, h.HasBase i b ∧ σ b = j := by
  rw [HasBase, he.basesOf_eq, List.mem_map]
  rfl

/-- Base links do not lead out of the classes of `h`. -/
theorem reaches_iff (he : Embeds σ h h') : h'.Reaches (σ i) j ↔ ∃ k, h.Reaches i k ∧ σ k = j := by
  constructor
  · intro hr
    induction hr with
    | refl => exact ⟨i, .refl, rfl⟩
    | tail _ hb ih =>
      obtain ⟨k, hk, rfl⟩ := ih
      obtain ⟨b, hkb, rfl⟩ := he.hasBase_iff.mp hb
      exact ⟨b, hk.tail hkb, rfl⟩
  · rintro ⟨k, hr, rfl⟩
    induction hr with
    | refl => exact .refl
    | tail _ hb ih => exact ih.tail (he.hasBase_iff.mpr ⟨_, hb, rfl⟩)

/-! ### Recognition -/

theorem isEnum_marks_eq (he : Embeds σ h h') (i : Nat) :
    h'.marks.isEnum (σ i) = h.marks.isEnum i := by
  obtain ⟨-, -, henum, -⟩ := marks_closure h
  obtain ⟨-, -, henum', -⟩ := marks_closure h'
  rw [Bool.eq_iff_iff, henum, henum']
  constructor
  · rintro ⟨j, hr, hj⟩
    obtain ⟨k, hk, rfl⟩ := he.reaches_iff.mp hr
    exact ⟨k, hk, he.declaresEnum_eq k ▸ hj⟩
  · rintro ⟨k, hk, hj⟩
    exact ⟨σ k, he.reaches_iff.mpr ⟨k, hk, rfl⟩, (he.declaresEnum_eq k).trans hj⟩

theorem sameKinds_sweep (he : Embeds σ h h') (hm : h.Fits m) (hm' : h'.Fits m')
    (hsame : SameKinds σ m m') : SameKinds σ (h.sweep m) (h'.sweep m') := by
  intro i
  induction i using Nat.strong_induction_on with
  | _ i ih =>
  by_cases hi : i < h.size
  · rw [kind?_sweep hm hi, kind?_sweep hm' (he.lt_size_iff.mpr hi), hsame, he.basesOf_eq,
      List.findSome?_map]
    -- the classes in front of the class are the same ones
    have hseen : ((fun b => if b < σ i then (h'.sweep m').kind? b else m'.kind? b) ∘ σ)
        = fun b => if b < i then (h.sweep m).kind? b else m.kind? b := by
      funext b
      simp only [Function.comp_apply, he.strictMono.lt_iff_lt]
      split
      · next hb => exact ih b hb
      · exact hsame b
    rw [hseen]
  · have hi' := he.lt_size_iff.not.mpr hi
    have hnone : ∀ {h : Hierarchy} {m : Marks} {i : Nat}, h.Fits m → ¬ i < h.size →
        (h.sweep m).kind? i = none := by
      intro h m i hm hi
      have hlen := (fits_sweepTo hm h.size).length_kinds
      by_contra hne
      obtain ⟨k, hk⟩ := Option.ne_none_iff_exists'.mp hne
      exact hi (hlen ▸ lt_length_of_kind? hk)
    rw [hnone hm hi, hnone hm' hi']

theorem sameKinds_after (he : Embeds σ h h') (n : Nat) :
    SameKinds σ (h.after n) (h'.after n) := by
  induction n with
  | zero => exact fun i => by rw [kind?_after_zero, kind?_after_zero, he.directKind?_eq]
  | succ n ih =>
    rw [after_succ, after_succ]
    exact he.sameKinds_sweep (fits_after h n) (fits_after h' n) ih

/-- The numbers of sweeps may differ, but not what they lead to. -/
theorem kind?_marks_eq (he : Embeds σ h h') (i : Nat) : h'.marks.kind? (σ i) = h.marks.kind? i := by
  refine Option.ext fun k => ⟨fun hk => ?_, fun hk => ?_⟩
  · obtain ⟨n, hn⟩ := exists_after_eq_marks h'
    rw [← hn, he.sameKinds_after n i] at hk
    exact kind?_marks_of_after hk
  · obtain ⟨n, hn⟩ := exists_after_eq_marks h
    rw [← hn, ← he.sameKinds_after n i] at hk
    exact kind?_marks_of_after hk

/-! ### Fields -/

theorem recognisedBases_eq (he : Embeds σ h h') (i : Nat) :
    h'.recognisedBases h'.marks (σ i) = (h.recognisedBases h.marks i).map σ := by
  rw [recognisedBases, he.basesOf_eq, List.filter_map, recognisedBases]
  refine congrArg _ (List.filter_congr fun b _ => ?_)
  rw [Function.comp_apply, he.kind?_marks_eq]

theorem inherit_eq (he : Embeds σ h h') (b : Nat) : h'.inherit (σ b) = h.inherit b := by
  funext f
  rw [inherit, he.getElem?_classes, inherit]

theorem combine_eq (he : Embeds σ h h') {fieldsOf fieldsOf' : Nat → Option (List SchemaField)}
    (hsame : ∀ b, fieldsOf' (σ b) = fieldsOf b) (i : Nat) :
    h'.combine h'.marks fieldsOf' (σ i) = h.combine h.marks fieldsOf i := by
  rw [combine, combine, he.recognisedBases_eq, List.foldl_map, he.getElem?_classes]
  simp only [hsame, he.inherit_eq]

theorem gets (he : Embeds σ h h') (hl : h.Gets h.marks i l) : h'.Gets h'.marks (σ i) l := by
  induction hl with
  | @merge i fieldsOf _ ih =>
    let fieldsOf' : Nat → List SchemaField := Function.extend σ fieldsOf fun _ => []
    have hextend : ∀ b, fieldsOf' (σ b) = fieldsOf b :=
      he.strictMono.injective.extend_apply fieldsOf _
    have hcombine : h'.combine h'.marks (fun b => some (fieldsOf' b)) (σ i)
        = h.combine h.marks (fun b => some (fieldsOf b)) i :=
      he.combine_eq (fun b => congrArg some (hextend b)) i
    rw [← hcombine]
    refine .merge fun b hb => ?_
    rw [he.recognisedBases_eq] at hb
    obtain ⟨c, hc, rfl⟩ := List.mem_map.mp hb
    exact hextend c ▸ ih c hc

/-- Whatever the further classes inherit from, the fields are the same. -/
theorem fields?_eq (he : Embeds σ h h') (hac : h.Acyclic) (hi : (h.marks.kind? i).isSome) :
    (h'.allFields h'.marks).fields? (σ i) = (h.allFields h.marks).fields? i := by
  obtain ⟨l, hl⟩ := exists_gets hac h.marks i
  have hi' : (h'.marks.kind? (σ i)).isSome := (he.kind?_marks_eq i).symm ▸ hi
  rw [fields?_allFields_of_gets (fits_marks h).length_kinds hi hl,
    fields?_allFields_of_gets (fits_marks h').length_kinds hi' (he.gets hl)]

/-! ### Schemas -/

/-- A field has the type that some class declares it with. -/
theorem exists_declared_type {f : SchemaField}
    (hl : (h.allFields m).fields? i = some l) (hf : f ∈ l) :
    ∃ c ∈ h.classes, ∃ g ∈ c.decl.fields, f.type = g.type := by
  have hown : ∀ {d : Nat} {g : SchemaField}, g ∈ h.ownFields d → f.type = g.type →
      ∃ c ∈ h.classes, ∃ g ∈ c.decl.fields, f.type = g.type := by
    intro d g hg htype
    obtain ⟨c, hc, hg⟩ := exists_class_of_mem_ownFields hg
    exact ⟨c, List.mem_of_getElem? hc, g, hg, htype⟩
  rcases hasOrigin_allFields hl hf with hf | ⟨d, g, ht⟩
  · exact hown hf rfl
  · exact hown ht.declared (ht.eq ▸ rfl)

/-- **Further classes change no schema**, when the types of fields name the same enumerations. -/
theorem schema?_eq (he : Embeds σ h h') (hac : h.Acyclic)
    (henum : ∀ c ∈ h.classes, ∀ f ∈ c.decl.fields, ∀ name,
      f.type.descriptor.referencedName? = some name →
        ∀ i, h'.enumOf? h'.marks (σ i) name = h.enumOf? h.marks i name)
    (i : Nat) (c : ClassEntry) :
    h'.schema? h'.marks (h'.allFields h'.marks) (σ i) c
      = h.schema? h.marks (h.allFields h.marks) i c := by
  rw [schema?, schema?, he.kind?_marks_eq]
  cases hk : h.marks.kind? i with
  | none => simp only [Option.bind_eq_bind, Option.bind_none]
  | some k =>
    rw [Option.bind_eq_bind, Option.bind_some, Option.bind_eq_bind, Option.bind_some,
      he.fields?_eq hac (by rw [hk]; rfl)]
    cases hl : (h.allFields h.marks).fields? i with
    | none => simp only [Option.bind_none]
    | some l =>
      have hvalues : l.map (h'.withEnumValues h'.marks (σ i))
          = l.map (h.withEnumValues h.marks i) := by
        refine List.map_congr_left fun f hf => ?_
        obtain ⟨d, hd, g, hg, htype⟩ := exists_declared_type hl hf
        have hsame : f.type.descriptor.referencedName?.bind (h'.enumOf? h'.marks (σ i))
            = f.type.descriptor.referencedName?.bind (h.enumOf? h.marks i) := by
          rw [htype]
          cases hname : g.type.descriptor.referencedName? with
          | none => rfl
          | some name => exact henum d hd g hg name hname i
        rw [withEnumValues, withEnumValues, hsame]
      simp only [hvalues, Option.bind_some]

end Embeds

/-! ### Finding bases -/

end Hierarchy

section Search

variable {keep : ClassEntry → Bool} {classes : List ClassEntry} {base : BaseRef} {i : Nat}

theorem candidateInModule?_keptIndex (candidates : List Nat) (wanted : String) :
    candidateInModule? classes (candidates.map (keptIndex keep classes)) wanted
      = (candidateInModule? (classes.filter keep) candidates wanted).map
        (keptIndex keep classes) := by
  rw [candidateInModule?, ← List.map_reverse, List.find?_map, candidateInModule?]
  simp only [Function.comp_def, getElem?_keptIndex]

theorem candidateBefore?_keptIndex (candidates : List Nat) (here : ClassEntry) :
    candidateBefore? classes (candidates.map (keptIndex keep classes)) here
      = (candidateBefore? (classes.filter keep) candidates here).map (keptIndex keep classes) := by
  rw [candidateBefore?, ← List.map_reverse, List.find?_map, candidateBefore?]
  simp only [Function.comp_def, getElem?_keptIndex]

/-- Classes of other names do not matter for where a base is found. -/
theorem findBase?_keptIndex (hname : ∀ c ∈ classes, c.decl.name == base.symbol → keep c) (i : Nat) :
    findBase? classes (keptIndex keep classes i) base
      = (findBase? (classes.filter keep) i base).map (keptIndex keep classes) := by
  have hcandidates : (indices (fun c => c.decl.name == base.symbol) classes).filter
        (· != keptIndex keep classes i)
      = ((indices (fun c => c.decl.name == base.symbol) (classes.filter keep)).filter
        (· != i)).map (keptIndex keep classes) := by
    rw [indices_keptIndex hname, List.filter_map]
    refine congrArg _ (List.filter_congr fun j _ => ?_)
    simp [bne, (injective_keptIndex keep classes).beq_eq]
  rw [findBase?, findBase?, getElem?_keptIndex]
  cases (classes.filter keep)[i]? with
  | none => rfl
  | some here =>
    simp only [Option.bind_eq_bind, Option.bind_some, hcandidates, candidateInModule?_keptIndex,
      candidateBefore?_keptIndex]
    generalize (indices (fun c => c.decl.name == base.symbol) (classes.filter keep)).filter
      (· != i) = candidates
    cases base.module with
    | none =>
      simp only [Option.orElse_eq_orElse, Option.orElse_eq_or, Option.map_or]
      refine congrArg (Option.or _) ?_
      rcases candidates with _ | ⟨only, _ | ⟨next, rest⟩⟩ <;> rfl
    | some module =>
      simp only [Option.orElse_eq_orElse, Option.orElse_eq_or, Option.map_or, Option.map_bind]
      refine congrArg (Option.or _) ?_
      rcases candidates with _ | ⟨only, _ | ⟨next, rest⟩⟩ <;> rfl

/-- What a type name that no further class has denotes for a class of a file. -/
private theorem denoted_keptIndex {name symbol file : String}
    (hsymbol : ∀ d ∈ classes, d.decl.name == symbol → keep d) (i : Nat) :
    (findBase? classes (keptIndex keep classes i) ⟨name, symbol, none, none⟩ <|>
        (indices (fun c => c.decl.name == symbol && c.file == file) classes).head?)
      = (findBase? (classes.filter keep) i ⟨name, symbol, none, none⟩ <|>
        (indices (fun c => c.decl.name == symbol && c.file == file) (classes.filter keep)).head?).map
          (keptIndex keep classes) := by
  have hfile : ∀ d ∈ classes, (d.decl.name == symbol && d.file == file) → keep d :=
    fun d hd h => hsymbol d hd (Bool.and_eq_true_iff.mp h).1
  rw [@findBase?_keptIndex keep classes ⟨name, symbol, none, none⟩ hsymbol i,
    indices_keptIndex hfile, List.head?_map]
  simp only [Option.orElse_eq_orElse, Option.orElse_eq_or, Option.map_or]

end Search

namespace Hierarchy

variable {keep : ClassEntry → Bool} {files files' : List FileFacts}

theorem basesOf_ofFiles (files : List FileFacts) (i : Nat) :
    (ofFiles files).basesOf i = (((classEntries files)[i]?.map fun c =>
      c.decl.bases.filterMap (findBase? (classEntries files) i)).getD []) := by
  rw [basesOf, ofFiles, List.getElem?_mapIdx]

/-- The classes of files among those of further files, none of which has the name of a base. -/
theorem embeds_ofFiles (hkeep : (classEntries files').filter keep = classEntries files)
    (hname : ∀ c ∈ classEntries files, ∀ b ∈ c.decl.bases, ∀ d ∈ classEntries files',
      d.decl.name == b.symbol → keep d) :
    Embeds (keptIndex keep (classEntries files')) (ofFiles files) (ofFiles files') where
  strictMono := strictMono_keptIndex keep _
  getElem?_classes i := by rw [ofFiles, ofFiles, getElem?_keptIndex, hkeep]
  basesOf_eq i := by
    rw [basesOf_ofFiles, basesOf_ofFiles, getElem?_keptIndex, hkeep]
    cases hc : (classEntries files)[i]? with
    | none => rfl
    | some c =>
      rw [Option.map_some, Option.getD_some, Option.map_some, Option.getD_some, List.map_filterMap]
      refine List.filterMap_congr fun b hb => ?_
      rw [findBase?_keptIndex (hname c (List.mem_of_getElem? hc) b hb), hkeep]

/-- A type name that no further class has names the same enumeration. -/
theorem enumOf?_ofFiles (hkeep : (classEntries files').filter keep = classEntries files)
    (he : Embeds (keptIndex keep (classEntries files')) (ofFiles files) (ofFiles files'))
    {name : String} (hname : ∀ d ∈ classEntries files',
      d.decl.name == Text.afterLastString '.' name → keep d) (i : Nat) :
    (ofFiles files').enumOf? (ofFiles files').marks (keptIndex keep (classEntries files') i) name
      = (ofFiles files).enumOf? (ofFiles files).marks i name := by
  have hclasses : ∀ l, (ofFiles l).classes = classEntries l := fun _ => rfl
  rw [enumOf?, enumOf?, he.getElem?_classes]
  simp only [hclasses]
  generalize Text.afterLastString '.' name = symbol at hname ⊢
  cases (classEntries files)[i]? with
  | none => simp only [Option.bind_eq_bind, Option.bind_none]
  | some here =>
    simp only [Option.bind_eq_bind, Option.bind_some]
    rw [denoted_keptIndex hname, hkeep, Option.bind_map]
    refine congrArg (Option.bind _) (funext fun target => ?_)
    rw [Function.comp_apply, he.isEnum_marks_eq, getElem?_keptIndex, hkeep]

end Hierarchy

end ApiSurface.Project
