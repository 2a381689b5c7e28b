import ApiSurface.Proofs.Text.Cutting
import ApiSurface.Proofs.TypeHint.Below

/-!
# Names in annotations

Reading an annotation looks names up at places: a dotted name at the place of its node, a name
between quotes at the place of the quotes (`Mentions`). All these places lie inside the annotation,
and nothing else that surrounds it counts: readings in two circumstances agree when all look-ups do
(`readWithin_congr`). Aliases are read where they are written, so the names in them do not count.
-/

namespace ApiSurface.TypeHint

open ApiSurface.Syntax (Node)
open ApiSurface.Expr (Arguments stripType stripType_mem_descendants)
open ApiSurface.Text (compactString)

variable {s : Source} {below : Below} {look look' : Look} {n m c : Node} {name text : String}
  {a a' : Anchor}

/-! ### Heads of dotted names -/

/-- The first segment of a dotted name. -/
def headOf (text : String) : String :=
  match Text.splitFirstString '.' text with
  | some (first, _) => first
  | none => text

/-- The name that is looked up for a dotted name. -/
def headName (n : Node) : String := headOf (compactString n.text)

theorem headOf_eq_self (h : Text.hasDot text = false) : headOf text = text := by
  have hdot : '.' ∉ text.toList := by simpa [Text.hasDot] using h
  rw [headOf, Text.splitFirstString, Text.splitFirst_eq_none hdot]
  rfl

/-! ### The names that a reading looks up -/

/-- Reading the annotation `n` looks the name up at the place of a node, unless an alias comes
before. -/
inductive Mentions (s : Source) : Node → Node → String → Prop
  | name {n : Node} (hk : (stripType n).kind ∈ nameKinds) :
    Mentions s n (stripType n) (headName (stripType n))
  /-- The names between quotes have the place of the quotes. -/
  | quoted {n expr m : Node} {name text : String} (hk : (stripType n).kind ∈ stringKinds)
    (ht : Expr.stringLiteral? (stripType n) = some text)
    (he : quotedExpr? (s.parse (Text.trimString text)) = some expr)
    (hm : Mentions s expr m name) : Mentions s n (stripType n) name
  | base {n b : Node} (hk : (stripType n).kind ∈ subscriptKinds)
    (hb : (subscriptParts (stripType n)).1 = some b) : Mentions s n b (headName b)
  | argument {n c m : Node} {name : String} (hk : (stripType n).kind ∈ subscriptKinds)
    (hc : c ∈ (subscriptParts (stripType n)).2) (hm : Mentions s c m name) : Mentions s n m name
  /-- The parameters of a callable type stand in a list of their own. -/
  | listed {n l c m : Node} {name : String} (hk : (stripType n).kind ∈ subscriptKinds)
    (hl : l ∈ (subscriptParts (stripType n)).2) (hlist : (stripType l).kind = "list")
    (hc : c ∈ (stripType l).namedChildren) (hm : Mentions s c m name) : Mentions s n m name
  | operand {n c m : Node} {name : String} (hk : (stripType n).kind ∈ unionKinds)
    (hc : c ∈ unionLeaves (stripType n)) (hm : Mentions s c m name) : Mentions s n m name
  | callee {n f : Node} (hk : (stripType n).kind = "call")
    (hf : (stripType n).childByField? "function" = some f) : Mentions s n f (headName f)
  | item {n c m : Node} {name : String} (hk : (stripType n).kind = "call")
    (hc : (Arguments.ofCall (stripType n)).get? 0 "item_type" = some c)
    (hm : Mentions s c m name) : Mentions s n m name

/-- A dotted name mentions its first segment only. -/
theorem Mentions.eq_of_name (h : Mentions s n m name) (hk : (stripType n).kind ∈ nameKinds) :
    m = stripType n ∧ name = headName (stripType n) := by
  have hno : ∀ {kinds : List String}, (∀ k ∈ nameKinds, k ∉ kinds) → (stripType n).kind ∉ kinds :=
    fun hdisjoint => hdisjoint _ hk
  cases h with
  | name => exact ⟨rfl, rfl⟩
  | quoted hk' => exact absurd hk' (hno (by decide))
  | base hk' => exact absurd hk' (hno (by decide))
  | argument hk' => exact absurd hk' (hno (by decide))
  | listed hk' => exact absurd hk' (hno (by decide))
  | operand hk' => exact absurd hk' (hno (by decide))
  | callee hk' => exact absurd (List.mem_singleton.mpr hk') (hno (by decide))
  | item hk' => exact absurd (List.mem_singleton.mpr hk') (hno (by decide))

/-! ### Agreement -/

/-- Looking the name up from two places gives the same. -/
def SameLookup (s : Source) (name : String) (a a' : Anchor) : Prop :=
  s.table.lookupAt name a.scope a.pos = s.table.lookupAt name a'.scope a'.pos

/-- In both circumstances the same aliases are being expanded, and all names in the annotation are
bound alike. -/
structure Agree (s : Source) (look look' : Look) (n : Node) : Prop where
  visiting : look.visiting = look'.visiting
  lookups : ∀ m name, Mentions s n m name →
    SameLookup s name (anchorOf s look m) (anchorOf s look' m)

theorem Agree.mono (h : Agree s look look' n)
    (hsub : ∀ m name, Mentions s c m name → Mentions s n m name) : Agree s look look' c :=
  ⟨h.visiting, fun m name hm => h.lookups m name (hsub m name hm)⟩

theorem pathOf?_congr (h : SameLookup s (headOf text) a a') :
    pathOf? s text a = pathOf? s text a' := by
  rw [SameLookup, headOf] at h
  rw [pathOf?, pathOf?]
  split <;> simp_all [Binding.Table.headPath?]

section Level

/-- Whatever is read below reads alike where the circumstances agree. -/
def ReadsAlike (s : Source) (below : Below) : Prop :=
  ∀ {look look' : Look} {n : Node}, Agree s look look' n → below look n = below look' n

theorem ofName_congr (hv : look.visiting = look'.visiting)
    (h : SameLookup s (headName n) (anchorOf s look n) (anchorOf s look' n)) :
    ofName s below look n = ofName s below look' n := by
  have hpath := pathOf?_congr h
  have halias : ∀ name a, ofAlias below look name a = ofAlias below look' name a := by
    intro name a
    rw [ofAlias, ofAlias, hv]
  simp only [ofName, hpath, halias]
  split
  · rfl
  · next hdot =>
    rw [SameLookup, headName, headOf_eq_self (Bool.eq_false_iff.mpr hdot)] at h
    rw [h]

theorem ofQuoted_congr (hbelow : ReadsAlike s below) (hk : (stripType n).kind ∈ stringKinds)
    (h : Agree s look look' n) :
    ofQuoted s below look (stripType n) = ofQuoted s below look' (stripType n) := by
  rw [ofQuoted, ofQuoted]
  split
  · rfl
  · next text ht =>
    dsimp only
    split
    · rfl
    · next expr he =>
      split
      · rfl
      · refine hbelow ⟨h.visiting, fun m name hm => ?_⟩
        exact h.lookups (stripType n) name (.quoted hk ht he hm)

theorem ofSubscript_congr (hbelow : ReadsAlike s below) (hk : (stripType n).kind ∈ subscriptKinds)
    (h : Agree s look look' n) :
    ofSubscript s below look (stripType n) = ofSubscript s below look' (stripType n) := by
  have hargs : ∀ c ∈ (subscriptParts (stripType n)).2, below look c = below look' c :=
    fun c hc => hbelow (h.mono fun _ _ => .argument hk hc)
  have hlist : ∀ l ∈ (subscriptParts (stripType n)).2, (stripType l).kind = "list" →
      ∀ c ∈ (stripType l).namedChildren, below look c = below look' c :=
    fun l hl hlist c hc => hbelow (h.mono fun _ _ => .listed hk hl hlist hc)
  rw [ofSubscript, ofSubscript]
  split
  · rfl
  · next b args hparts =>
    rw [hparts] at hargs hlist
    have hbase := h.lookups b (headName b) (.base hk (by rw [hparts]))
    have hform : ∀ form last,
        ofForm below look form last args = ofForm below look' form last args :=
      fun form last => ofForm_congr form last fun c hc => by
        rcases mem_of_mem_formParts hc with hc | ⟨l, hl, hk, hc⟩
        · exact hargs c hc
        · exact hlist l hl hk c hc
    simp only [pathOf?_congr hbase, hform, descriptors_congr hargs]

theorem ofUnion_congr (hbelow : ReadsAlike s below) (hk : (stripType n).kind ∈ unionKinds)
    (h : Agree s look look' n) :
    ofUnion below look (stripType n) = ofUnion below look' (stripType n) := by
  rw [ofUnion, ofUnion,
    descriptors_congr fun c hc => hbelow (h.mono fun _ _ => .operand hk hc)]

theorem ofCall_congr (hbelow : ReadsAlike s below) (hk : (stripType n).kind = "call")
    (h : Agree s look look' n) :
    ofCall s below look (stripType n) = ofCall s below look' (stripType n) := by
  have hitem : itemType below look (stripType n) = itemType below look' (stripType n) := by
    rw [itemType, itemType]
    split
    · next c hc => rw [hbelow (h.mono fun _ _ => .item hk hc)]
    · rfl
  rw [ofCall, ofCall]
  split
  · rfl
  · next f hf =>
    dsimp only
    rw [pathOf?_congr (h.lookups f (headName f) (.callee hk hf))]
    split
    · rfl
    · next kind _ => cases kind <;> simp only [ofConstrained, hitem]

/-- One level reads alike where the circumstances agree. -/
theorem level_congr (hbelow : ReadsAlike s below) (h : Agree s look look' n) :
    level s below look n = level s below look' n := by
  have hname : (stripType n).kind ∈ nameKinds →
      ofName s below look (stripType n) = ofName s below look' (stripType n) := fun hk =>
    ofName_congr h.visiting (h.lookups _ _ (.name hk))
  simp only [level]
  split
  · rfl
  · next hk => exact hname (by simp [nameKinds, hk])
  · next hk => exact hname (by simp [nameKinds, hk])
  · next hk => exact hname (by simp [nameKinds, hk])
  · next hk => exact ofQuoted_congr hbelow (by simp [stringKinds, hk]) h
  · next hk => exact ofQuoted_congr hbelow (by simp [stringKinds, hk]) h
  · next hk => exact ofSubscript_congr hbelow (by simp [subscriptKinds, hk]) h
  · next hk => exact ofSubscript_congr hbelow (by simp [subscriptKinds, hk]) h
  · next hk => rw [ofUnion_congr hbelow (by simp [unionKinds, hk]) h]
  · next hk => exact ofUnion_congr hbelow (by simp [unionKinds, hk]) h
  · next hk => exact ofCall_congr hbelow hk h
  · rfl

end Level

/-- **Only the names count.** Readings of an annotation agree where all names in it are bound
alike. -/
theorem readWithin_congr (s : Source) (depth : Nat) : ReadsAlike s (readWithin s depth) := by
  induction depth with
  | zero => exact fun _ => rfl
  | succ depth ih => exact fun h => level_congr ih h

/-! ### Places -/

theorem mem_descendants_of_subscriptParts_base (h : (subscriptParts n).1 = some c) :
    c ∈ n.descendants := by
  rw [subscriptParts] at h
  split at h
  · exact Node.childByField?_mem_descendants h
  · split at h
    · simp at h
    · next base rest hnamed =>
      obtain rfl : base = c := Option.some.inj h
      exact Node.namedChild_mem_descendants (hnamed ▸ List.mem_cons_self)

theorem mem_descendants_of_subscriptParts_args (h : c ∈ (subscriptParts n).2) :
    c ∈ n.descendants := by
  rw [subscriptParts] at h
  split at h
  · exact Node.child_mem_descendants (List.mem_filter.mp h).1
  · split at h
    · simp at h
    · next base rest hnamed =>
      dsimp only at h
      split at h
      · next parameters hp =>
        have hmem : parameters ∈ n.namedChildren :=
          hnamed ▸ List.mem_cons_of_mem _ (List.mem_of_find?_eq_some hp)
        exact Node.mem_descendants_trans (Node.namedChild_mem_descendants hmem)
          (Node.namedChild_mem_descendants h)
      · simp at h

/-- What a subscript reads of its arguments lies inside it. -/
theorem mem_descendants_of_subscriptAsked (h : c ∈ subscriptAsked s look n) :
    c ∈ n.descendants := by
  rw [subscriptAsked] at h
  split at h
  · simp at h
  · next base args hparts =>
    have hargs : ∀ c ∈ args, c ∈ n.descendants := fun c hc =>
      mem_descendants_of_subscriptParts_args (by rwa [hparts])
    split at h
    · simp at h
    · split at h
      · rcases mem_of_mem_formParts h with hc | ⟨l, hl, -, hc⟩
        · exact hargs c hc
        · exact Node.mem_descendants_trans (hargs l hl)
            (Node.mem_descendants_trans (stripType_mem_descendants l)
              (Node.namedChild_mem_descendants hc))
      · exact hargs c h

theorem mem_descendants_of_callAsked (h : c ∈ callAsked s look n) : c ∈ n.descendants := by
  have hitem : c ∈ ((Arguments.ofCall n).get? 0 "item_type").toList → c ∈ n.descendants :=
    fun h => Arguments.mem_descendants_of_get? (Option.mem_toList.mp h)
  rw [callAsked] at h
  split at h
  · simp at h
  · split at h
    · exact hitem h
    · exact hitem h
    · simp at h

theorem mem_descendants_of_unionLeaves (h : c ∈ unionLeaves n) : c ∈ n.descendants := by
  fun_induction unionLeaves n with
  | case1 n k hunion ih =>
    obtain ⟨⟨d, hd⟩, -, hc⟩ := List.mem_flatMap.mp h
    exact Node.mem_descendants_trans (stripType_mem_descendants n)
      (Node.mem_descendants_trans (Node.namedChild_mem_descendants hd) (ih d hd hc))
  | case2 n k hunion =>
    exact List.mem_singleton.mp h ▸ stripType_mem_descendants n

/-- The places of names lie inside the annotation. -/
theorem Mentions.mem_descendants (h : Mentions s n m name) : m ∈ n.descendants := by
  induction h with
  | name hk => exact stripType_mem_descendants _
  | quoted hk ht he hm ih => exact stripType_mem_descendants _
  | base hk hb =>
    exact Node.mem_descendants_trans (stripType_mem_descendants _)
      (mem_descendants_of_subscriptParts_base hb)
  | argument hk hc hm ih =>
    exact Node.mem_descendants_trans (stripType_mem_descendants _)
      (Node.mem_descendants_trans (mem_descendants_of_subscriptParts_args hc) ih)
  | listed hk hl hlist hc hm ih =>
    exact Node.mem_descendants_trans (stripType_mem_descendants _)
      (Node.mem_descendants_trans (mem_descendants_of_subscriptParts_args hl)
        (Node.mem_descendants_trans (stripType_mem_descendants _)
          (Node.mem_descendants_trans (Node.namedChild_mem_descendants hc) ih)))
  | operand hk hc hm ih =>
    exact Node.mem_descendants_trans (stripType_mem_descendants _)
      (Node.mem_descendants_trans (mem_descendants_of_unionLeaves hc) ih)
  | callee hk hf =>
    exact Node.mem_descendants_trans (stripType_mem_descendants _)
      (Node.childByField?_mem_descendants hf)
  | item hk hc hm ih =>
    exact Node.mem_descendants_trans (stripType_mem_descendants _)
      (Node.mem_descendants_trans (Arguments.mem_descendants_of_get? hc) ih)

end ApiSurface.TypeHint
