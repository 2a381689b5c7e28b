import Mathlib.Data.List.TakeWhile
import ApiSurface.Proofs.Routing.Join
import ApiSurface.Proofs.Text.Cutting
import ApiSurface.Routing.Placeholder

/-!
# Placeholders of joined paths

The placeholders of a joined path are those of its fragments, one after the other
(`placeholders_joinPaths`). Two things could go wrong. Joining collapses slashes, also those inside a
placeholder, but a slash can only stand between the parentheses of a converter, which count for
nothing (`readAngle?_collapse`). And a placeholder could reach from one fragment into the next; that
takes an angle that is still open at the end of a fragment, so fragments that close their angles
(`ClosesAngles`) are read by themselves.
-/

namespace ApiSurface.Routing

open ApiSurface.Text (splitFirst splitLast)

variable {c : Char} {l r a b : List Char}

/-! ### Collapsing -/

theorem collapse_cons_of_ne (hc : c ≠ '/') (r : List Char) : collapse (c :: r) = c :: collapse r := by
  cases r with
  | nil => rfl
  | cons d r => rw [collapse, if_neg fun h => hc h.1]

theorem collapse_append_of_notMem (ha : '/' ∉ a) (b : List Char) :
    collapse (a ++ b) = a ++ collapse b := by
  induction a with
  | nil => rfl
  | cons c a ih =>
    rw [List.mem_cons, not_or] at ha
    rw [List.cons_append, collapse_cons_of_ne (Ne.symm ha.1), ih ha.2, List.cons_append]

theorem collapse_eq_self (h : '/' ∉ l) : collapse l = l := by
  simpa using collapse_append_of_notMem h []

theorem mem_collapse_iff : c ∈ collapse l ↔ c ∈ l := by
  fun_induction collapse l with
  | case1 => rfl
  | case2 => rfl
  | case3 d e r h ih =>
    obtain ⟨rfl, rfl⟩ := h
    rw [ih]
    simp
  | case4 d e r h ih => rw [List.mem_cons, ih, List.mem_cons (a := c) (b := d)]

/-- What is no slash keeps the two sides apart. -/
theorem collapse_append_cons (hc : c ≠ '/') (a b : List Char) :
    collapse (a ++ c :: b) = collapse a ++ c :: collapse b := by
  fun_induction collapse a with
  | case1 => exact collapse_cons_of_ne hc b
  | case2 d =>
    rw [List.singleton_append, collapse, if_neg fun h => hc h.2, collapse_cons_of_ne hc]
    rfl
  | case3 d e r h ih =>
    obtain ⟨rfl, rfl⟩ := h
    rw [← ih]
    exact collapse_slash_slash (r ++ c :: b)
  | case4 d e r h ih =>
    simp only [List.cons_append] at ih ⊢
    rw [collapse, if_neg h, ih]

theorem splitFirst_collapse (hc : c ≠ '/') (l : List Char) :
    splitFirst c (collapse l) = (splitFirst c l).map fun (a, b) => (collapse a, collapse b) := by
  by_cases h : c ∈ l
  · obtain ⟨a, b, ha, rfl, hl⟩ := Text.exists_splitFirst_eq h
    rw [hl, collapse_append_cons hc, Text.splitFirst_append_cons (mt mem_collapse_iff.mp ha)]
    rfl
  · rw [Text.splitFirst_eq_none h, Text.splitFirst_eq_none (mt mem_collapse_iff.mp h)]
    rfl

theorem splitLast_collapse (hc : c ≠ '/') (l : List Char) :
    splitLast c (collapse l) = (splitLast c l).map fun (a, b) => (collapse a, collapse b) := by
  by_cases h : c ∈ l
  · obtain ⟨a, b, hb, rfl, hl⟩ := Text.exists_splitLast_eq h
    rw [hl, collapse_append_cons hc, Text.splitLast_append (mt mem_collapse_iff.mp hb)]
    rfl
  · rw [Text.splitLast_eq_none h, Text.splitLast_eq_none (mt mem_collapse_iff.mp h)]
    rfl

/-- A reader that takes no slashes does not see the difference. -/
theorem read_collapse_of_rejects {read : List Char → Option Placeholder}
    (hread : ∀ l, '/' ∈ l → read l = none) (l : List Char) : read (collapse l) = read l := by
  by_cases h : '/' ∈ l
  · rw [hread l h, hread _ (mem_collapse_iff.mpr h)]
  · rw [collapse_eq_self h]

/-! ### Identifiers -/

theorem ne_slash_of_isWordChar (h : isWordChar c) : c ≠ '/' := by
  rintro rfl
  revert h
  decide

theorem ne_slash_of_isLetter (h : isLetter c) : c ≠ '/' :=
  ne_slash_of_isWordChar (by rw [isWordChar, h, Bool.true_or])

/-- What cannot stand inside an identifier stands in none. -/
theorem notMem_of_isIdentifier (hc : isWordChar c = false) (h : isIdentifier l) : c ∉ l := by
  cases l with
  | nil => cases h
  | cons d r =>
    obtain ⟨hd, hr⟩ := Bool.and_eq_true_iff.mp h
    have hword : ∀ e ∈ d :: r, isWordChar e := by
      rw [List.forall_mem_cons, isWordChar, hd, Bool.true_or]
      exact ⟨rfl, List.all_eq_true.mp hr⟩
    exact fun hmem => Bool.false_ne_true (hc.symm.trans (hword c hmem))

/-- An identifier is cut off a text by itself. -/
theorem takeIdentifier?_eq_some {first tail : List Char}
    (h : takeIdentifier? l = some (first, tail)) : l = first ++ tail ∧ '/' ∉ first := by
  cases l with
  | nil => cases h
  | cons c r =>
    rw [takeIdentifier?] at h
    split at h
    · next hc =>
      cases h
      refine ⟨congrArg _ List.takeWhile_append_dropWhile.symm, ?_⟩
      rw [List.mem_cons, not_or]
      exact ⟨Ne.symm (ne_slash_of_isLetter hc), fun hslash =>
        ne_slash_of_isWordChar (List.mem_takeWhile_imp hslash) rfl⟩
    · cases h

theorem takeWhile_collapse (r : List Char) :
    (collapse r).takeWhile isWordChar = r.takeWhile isWordChar ∧
      (collapse r).dropWhile isWordChar = collapse (r.dropWhile isWordChar) := by
  induction r with
  | nil => exact ⟨rfl, rfl⟩
  | cons c r ih =>
    by_cases hc : isWordChar c
    · rw [collapse_cons_of_ne (ne_slash_of_isWordChar hc)]
      simp [hc, ih]
    · obtain ⟨t, ht⟩ := exists_collapse_cons c r
      simp [ht, hc]

theorem takeIdentifier?_collapse (l : List Char) :
    takeIdentifier? (collapse l)
      = (takeIdentifier? l).map fun (first, tail) => (first, collapse tail) := by
  cases l with
  | nil => rfl
  | cons c r =>
    by_cases hc : isLetter c
    · rw [collapse_cons_of_ne (ne_slash_of_isLetter hc), takeIdentifier?, takeIdentifier?,
        if_pos hc, if_pos hc, (takeWhile_collapse r).1, (takeWhile_collapse r).2]
      rfl
    · obtain ⟨t, ht⟩ := exists_collapse_cons c r
      rw [ht, takeIdentifier?, takeIdentifier?, if_neg hc, if_neg hc]
      rfl

/-! ### One placeholder -/

/-- The placeholder of an angle with a converter, given the text behind the colon. -/
def named? (converter name : List Char) : Option Placeholder :=
  if isIdentifier name then some ⟨String.ofList name, some (String.ofList converter)⟩ else none

/-- The placeholder of an angle with arguments, given the text behind them. -/
def behindArguments? (converter : List Char) : List Char → Option Placeholder
  | ':' :: name => named? converter name
  | _ => none

/-- The placeholder of an angle, given the text behind the first identifier. -/
def behindFirst? (first : List Char) : List Char → Option Placeholder
  | [] => some ⟨String.ofList first, some defaultConverter⟩
  | ':' :: name => named? first name
  | '(' :: rest => (splitLast ')' rest).bind fun (_, behind) => behindArguments? first behind
  | _ => none

theorem behindFirst?_of_ne (first : List Char) (hcolon : c ≠ ':') (hparen : c ≠ '(') :
    behindFirst? first (c :: r) = none := by
  rw [behindFirst?]
  · exact List.cons_ne_nil c r
  · exact fun _ h => hcolon (List.cons.inj h).1
  · exact fun _ h => hparen (List.cons.inj h).1

theorem readAngle?_eq (content : List Char) :
    readAngle? content
      = (takeIdentifier? content).bind fun (first, tail) => behindFirst? first tail := by
  unfold readAngle?
  split
  · next h => rw [h]; rfl
  · next h => rw [h]; rfl
  · next h => rw [h]; rfl
  · next first rest h =>
    simp only [h, Option.bind_some, behindFirst?]
    cases splitLast ')' rest with
    | none => rfl
    | some parts =>
      obtain ⟨before, behind⟩ := parts
      rw [Option.bind_some]
      unfold behindArguments?
      split <;> simp_all [named?]
  · next parts hnil hcolon hparen h =>
    obtain ⟨first, tail⟩ := parts
    rw [h, Option.bind_some]
    cases tail with
    | nil => exact absurd rfl (hnil first)
    | cons c tail =>
      refine (behindFirst?_of_ne first ?_ ?_).symm
      · rintro rfl
        exact hcolon first tail rfl
      · rintro rfl
        exact hparen first tail rfl

theorem named?_of_slash_mem (converter : List Char) (h : '/' ∈ l) : named? converter l = none :=
  if_neg fun hname => notMem_of_isIdentifier (by decide) hname h

theorem behindArguments?_of_ne (converter : List Char) (hc : c ≠ ':') :
    behindArguments? converter (c :: r) = none := by
  rw [behindArguments?]
  exact fun _ h => hc (List.cons.inj h).1

theorem behindArguments?_collapse (converter behind : List Char) :
    behindArguments? converter (collapse behind) = behindArguments? converter behind := by
  cases behind with
  | nil => rfl
  | cons c name =>
    by_cases hc : c = ':'
    · subst hc
      rw [collapse_cons_of_ne (by decide)]
      exact read_collapse_of_rejects (fun _ => named?_of_slash_mem converter) name
    · obtain ⟨t, ht⟩ := exists_collapse_cons c name
      rw [ht, behindArguments?_of_ne converter hc, behindArguments?_of_ne converter hc]

theorem behindFirst?_collapse (first tail : List Char) :
    behindFirst? first (collapse tail) = behindFirst? first tail := by
  cases tail with
  | nil => rfl
  | cons c tail =>
    by_cases hcolon : c = ':'
    · subst hcolon
      rw [collapse_cons_of_ne (by decide)]
      exact read_collapse_of_rejects (fun _ => named?_of_slash_mem first) tail
    by_cases hparen : c = '('
    · subst hparen
      rw [collapse_cons_of_ne (by decide), behindFirst?, behindFirst?,
        splitLast_collapse (by decide)]
      cases splitLast ')' tail with
      | none => rfl
      | some parts => exact behindArguments?_collapse first parts.2
    · obtain ⟨t, ht⟩ := exists_collapse_cons c tail
      rw [ht, behindFirst?_of_ne first hcolon hparen, behindFirst?_of_ne first hcolon hparen]

/-- Slashes stand only where an angle placeholder does not look. -/
theorem readAngle?_collapse (content : List Char) :
    readAngle? (collapse content) = readAngle? content := by
  rw [readAngle?_eq, readAngle?_eq, takeIdentifier?_collapse]
  cases takeIdentifier? content with
  | none => rfl
  | some parts => exact behindFirst?_collapse parts.1 parts.2

theorem slash_notMem_of_isBraceTail (h : isBraceTail l) : '/' ∉ l := by
  unfold isBraceTail at h
  split at h
  · exact List.not_mem_nil
  · next c r =>
    obtain ⟨hc, hr⟩ := Bool.and_eq_true_iff.mp h
    simp only [List.mem_cons, not_or]
    exact ⟨by decide, Ne.symm (ne_slash_of_isLetter hc), fun hslash =>
      ne_slash_of_isLetter (List.all_eq_true.mp hr _ hslash) rfl⟩
  · cases h

/-- No slash stands in a brace placeholder. -/
theorem readBrace?_of_slash_mem (h : '/' ∈ l) : readBrace? l = none := by
  unfold readBrace?
  split
  · next name tail hname =>
    obtain ⟨rfl, hfirst⟩ := takeIdentifier?_eq_some hname
    have htail : '/' ∈ tail := (List.mem_append.mp h).resolve_left hfirst
    exact if_neg fun hbrace => slash_notMem_of_isBraceTail hbrace htail
  · rfl

theorem readBrace?_collapse (content : List Char) :
    readBrace? (collapse content) = readBrace? content :=
  read_collapse_of_rejects (fun _ => readBrace?_of_slash_mem) content

/-! ### One step -/

/-- Read up to the closing character, together with what is left. -/
def readUpTo? (close : Char) (read : List Char → Option Placeholder) (r : List Char) :
    Option (Placeholder × List Char) :=
  (splitFirst close r).bind fun (content, tail) => (read content).map fun p => (p, tail)

/-- The placeholder that begins with `c`, together with what is left behind it. -/
def step? (c : Char) (r : List Char) : Option (Placeholder × List Char) :=
  if c = '<' then readUpTo? '>' readAngle? r
  else if c = '\x7b' then readUpTo? '\x7d' readBrace? r
  else none

theorem placeholdersFrom_eq_drop (n : Nat) (l : List Char) :
    placeholdersFrom n l = placeholdersFrom 0 (l.drop n) := by
  induction l generalizing n with
  | nil => cases n <;> rfl
  | cons c r ih =>
    cases n with
    | zero => rfl
    | succ n =>
      rw [placeholdersFrom, List.drop_succ_cons]
      exact ih n

theorem drop_of_splitFirst {sep : Char} (h : splitFirst sep r = some (a, b)) :
    r.drop (a.length + 1) = b := by
  have hsep : sep ∈ r := by
    by_contra hsep
    rw [Text.splitFirst_eq_none hsep] at h
    cases h
  obtain ⟨a', b', -, rfl, hr⟩ := Text.exists_splitFirst_eq hsep
  cases hr.symm.trans h
  simp

/-- What is left is the text without as many characters as were used. -/
theorem step?_eq (c : Char) (r : List Char) :
    step? c r = (readAt? c r).map fun (p, n) => (p, r.drop n) := by
  have hup : ∀ (close : Char) (read : List Char → Option Placeholder),
      readUpTo? close read r = ((splitFirst close r).bind fun parts =>
        (read parts.1).bind fun p => some (p, parts.1.length + 1)).map
          fun (p, n) => (p, r.drop n) := by
    intro close read
    rw [readUpTo?]
    cases hr : splitFirst close r with
    | none => rfl
    | some parts =>
      simp only [Option.bind_some]
      cases read parts.1 with
      | none => rfl
      | some p => exact congrArg (fun tail => some (p, tail)) (drop_of_splitFirst hr).symm
  unfold step? readAt?
  split
  · exact hup '>' readAngle?
  · split
    · exact hup '\x7d' readBrace?
    · rfl

/-- Reading goes on behind a placeholder, or behind one character. -/
theorem placeholdersFrom_cons (c : Char) (r : List Char) :
    placeholdersFrom 0 (c :: r) = match step? c r with
      | some (p, tail) => p :: placeholdersFrom 0 tail
      | none => placeholdersFrom 0 r := by
  rw [step?_eq, placeholdersFrom]
  cases readAt? c r with
  | none => rfl
  | some used => exact congrArg _ (placeholdersFrom_eq_drop used.2 r)

theorem length_le_of_step? {found : Placeholder × List Char} (h : step? c r = some found) :
    found.2.length ≤ r.length := by
  rw [step?_eq] at h
  obtain ⟨used, -, rfl⟩ := Option.map_eq_some_iff.mp h
  rw [List.length_drop]
  exact Nat.sub_le _ _

theorem readUpTo?_collapse {close : Char} {read : List Char → Option Placeholder}
    (hclose : close ≠ '/') (hread : ∀ content, read (collapse content) = read content) :
    readUpTo? close read (collapse r)
      = (readUpTo? close read r).map fun (p, tail) => (p, collapse tail) := by
  rw [readUpTo?, readUpTo?, splitFirst_collapse hclose]
  cases splitFirst close r with
  | none => rfl
  | some parts =>
    obtain ⟨content, tail⟩ := parts
    simp only [Option.map_some, Option.bind_some, hread, Option.map_map]
    rfl

/-- The next placeholder is the same in a text with fewer slashes. -/
theorem step?_collapse (c : Char) (r : List Char) :
    step? c (collapse r) = (step? c r).map fun (p, tail) => (p, collapse tail) := by
  unfold step?
  split
  · exact readUpTo?_collapse (by decide) readAngle?_collapse
  · split
    · exact readUpTo?_collapse (by decide) readBrace?_collapse
    · rfl

/-- **Slashes do not count.** A text has the same placeholders when its runs of slashes are
collapsed. -/
theorem placeholdersFrom_collapse (l : List Char) :
    placeholdersFrom 0 (collapse l) = placeholdersFrom 0 l := by
  induction hn : l.length using Nat.strong_induction_on generalizing l with
  | _ n ih =>
    cases l with
    | nil => rfl
    | cons c r =>
      have hr : r.length < n := hn ▸ Nat.lt_succ_self _
      have hrest := ih r.length hr r rfl
      by_cases hslash : c = '/' ∧ r.head? = some '/'
      · obtain ⟨rfl, hhead⟩ := hslash
        obtain ⟨r', rfl⟩ : ∃ r', r = '/' :: r' := by
          cases r with
          | nil => cases hhead
          | cons d r => exact ⟨r, by rw [Option.some.inj hhead]⟩
        rw [collapse_slash_slash, hrest, placeholdersFrom_cons '/' ('/' :: r')]
        rfl
      · have hcons : collapse (c :: r) = c :: collapse r := by
          cases r with
          | nil => rfl
          | cons d r => rw [collapse, if_neg fun h => hslash ⟨h.1, congrArg some h.2⟩]
        rw [hcons, placeholdersFrom_cons, placeholdersFrom_cons, step?_collapse]
        cases hstep : step? c r with
        | none => exact hrest
        | some parts =>
          have hlt := (length_le_of_step? hstep).trans_lt hr
          exact congrArg _ (ih _ hlt parts.2 rfl)

/-! ### Seams -/

/-- Behind each opening angle there is a closing one. -/
def ClosesAngles : List Char → Prop
  | [] => True
  | c :: r => (c = '<' → '>' ∈ r) ∧ ClosesAngles r

instance decidableClosesAngles : (l : List Char) → Decidable (ClosesAngles l)
  | [] => inferInstanceAs (Decidable True)
  | _ :: r => @instDecidableAnd _ _ _ (decidableClosesAngles r)

theorem ClosesAngles.drop (h : ClosesAngles l) (n : Nat) : ClosesAngles (l.drop n) := by
  induction n generalizing l with
  | zero => exact h
  | succ n ih =>
    cases l with
    | nil => exact h
    | cons c r => exact ih h.2

/-- The next placeholder does not reach over a slash that follows closed angles. -/
theorem step?_append_slash (hclosed : ClosesAngles (c :: r)) (more : List Char) :
    step? c (r ++ '/' :: more) = (step? c r).map fun (p, tail) => (p, tail ++ '/' :: more) := by
  have hup : ∀ (close : Char) (read : List Char → Option Placeholder), close ∈ r →
      readUpTo? close read (r ++ '/' :: more)
        = (readUpTo? close read r).map fun (p, tail) => (p, tail ++ '/' :: more) := by
    intro close read hmem
    rw [readUpTo?, readUpTo?, Text.splitFirst_append hmem]
    cases splitFirst close r with
    | none => rfl
    | some parts =>
      simp only [Option.map_some, Option.bind_some, Option.map_map]
      rfl
  -- a brace that is still open would have to hold the slash
  have hopen : '\x7d' ∉ r → readUpTo? '\x7d' readBrace? (r ++ '/' :: more) = none := by
    intro hnot
    rw [readUpTo?]
    by_cases hmem : '\x7d' ∈ more
    · obtain ⟨a, b, ha, rfl, -⟩ := Text.exists_splitFirst_eq hmem
      have hassoc : r ++ '/' :: (a ++ '\x7d' :: b) = (r ++ '/' :: a) ++ '\x7d' :: b := by simp
      have hread : readBrace? (r ++ '/' :: a) = none := readBrace?_of_slash_mem (by simp)
      rw [hassoc, Text.splitFirst_append_cons (by simp [hnot, ha])]
      simp only [Option.bind_some, hread, Option.map_none]
    · rw [Text.splitFirst_eq_none (by simp [hnot, hmem])]
      rfl
  unfold step?
  split
  · next hangle => exact hup '>' readAngle? (hclosed.1 hangle)
  · split
    · by_cases hmem : '\x7d' ∈ r
      · exact hup _ readBrace? hmem
      · rw [hopen hmem, readUpTo?, Text.splitFirst_eq_none hmem]
        rfl
    · rfl

/-- **No placeholder reaches over a seam** behind closed angles. -/
theorem placeholdersFrom_append_slash (hclosed : ClosesAngles l) (more : List Char) :
    placeholdersFrom 0 (l ++ '/' :: more)
      = placeholdersFrom 0 l ++ placeholdersFrom 0 ('/' :: more) := by
  induction hn : l.length using Nat.strong_induction_on generalizing l with
  | _ n ih =>
    cases l with
    | nil => rfl
    | cons c r =>
      have hr : r.length < n := hn ▸ Nat.lt_succ_self _
      rw [List.cons_append, placeholdersFrom_cons, step?_append_slash hclosed,
        placeholdersFrom_cons c r]
      cases hstep : step? c r with
      | none => exact ih r.length hr hclosed.2 rfl
      | some found =>
        have hlt := (length_le_of_step? hstep).trans_lt hr
        rw [step?_eq] at hstep
        obtain ⟨used, -, rfl⟩ := Option.map_eq_some_iff.mp hstep
        exact congrArg _ (ih _ hlt (hclosed.2.drop used.2) rfl)

theorem placeholdersFrom_slash (l : List Char) :
    placeholdersFrom 0 ('/' :: l) = placeholdersFrom 0 l := by
  rw [placeholdersFrom_cons]
  rfl

/-- Rooted fragments have the placeholders of each of them. -/
theorem placeholdersFrom_rooted (parts : List (List Char)) (last : List Char)
    (hclosed : ∀ p ∈ parts, ClosesAngles p) :
    placeholdersFrom 0 (rooted (parts ++ [last]))
      = parts.flatMap (placeholdersFrom 0) ++ placeholdersFrom 0 last := by
  induction parts with
  | nil =>
    cases last with
    | nil => rfl
    | cons c last =>
      have hrooted : rooted [c :: last] = '/' :: (c :: last) := by simp [rooted]
      rw [List.nil_append, hrooted, placeholdersFrom_slash]
      rfl
  | cons p parts ih =>
    have ih := ih fun q hq => hclosed q (List.mem_cons_of_mem p hq)
    rw [List.flatMap_cons, List.append_assoc, ← ih]
    cases p with
    | nil => rfl
    | cons c p =>
      have hrooted : rooted (((c :: p) :: parts) ++ [last])
          = '/' :: ((c :: p) ++ rooted (parts ++ [last])) := rfl
      rw [hrooted, placeholdersFrom_slash]
      rcases rooted_eq_nil_or_cons (parts ++ [last]) with hnil | ⟨r, hcons⟩
      · rw [hnil]
        simp [placeholdersFrom]
      · rw [hcons, placeholdersFrom_append_slash (hclosed _ List.mem_cons_self)]

/-- **Placeholders of joined paths.** When the fragments in front close their angles, the joined path
has the placeholders of the fragments, one after the other, and no other ones. -/
theorem placeholders_joinPaths (parts : List String) (last : String)
    (hclosed : ∀ p ∈ parts, ClosesAngles p.toList) :
    placeholders (joinPaths (parts ++ [last]))
      = parts.flatMap placeholders ++ placeholders last := by
  have hparts : ∀ p ∈ parts.map String.toList, ClosesAngles p := fun p hp => by
    obtain ⟨q, hq, rfl⟩ := List.mem_map.mp hp
    exact hclosed q hq
  rw [placeholders, joinPaths, String.toList_ofList, joinChars_eq_collapse,
    placeholdersFrom_collapse, placeholdersFrom_slash, List.map_append, List.map_singleton,
    placeholdersFrom_rooted _ _ hparts, List.flatMap_map]
  rfl

example : placeholders (joinPaths ["/<any(a//b):kind>", "\x7btenant\x7d/", "<int:id>"])
    = [⟨"kind", some "any"⟩, ⟨"tenant", none⟩, ⟨"id", some "int"⟩] := by decide

end ApiSurface.Routing
