import Mathlib.Data.List.DropRight
import Mathlib.Data.List.TakeWhile
import ApiSurface.Proofs.Text.Cutting
import ApiSurface.Text.Blank
import ApiSurface.Text.Slice

/-!
# White space at ends, and lines

White space in front of a text (`trim_append_left`) and behind it (`trim_append_right`) is trimmed; a
text that begins and ends with other characters is kept (`trim_eq_self_iff`). Lines that were joined
are found again (`lines_join`).
-/

namespace ApiSurface.Text

variable {l pre post : List Char} {c : Char}

/-! ### Trimming -/

theorem allBlank_iff : allBlank l ↔ ∀ c ∈ l, isBlank c := List.all_eq_true

theorem trimStart_append (hpre : allBlank pre) : trimStart (pre ++ l) = trimStart l :=
  List.dropWhile_append_of_pos (allBlank_iff.mp hpre)

theorem trimEnd_append (hpost : allBlank post) : trimEnd (l ++ post) = trimEnd l := by
  rw [trimEnd, dropTailWhile, List.reverse_append,
    List.dropWhile_append_of_pos fun c hc => allBlank_iff.mp hpost c (List.mem_reverse.mp hc)]
  rfl

theorem trimStart_eq_nil (h : allBlank l) : trimStart l = [] :=
  List.dropWhile_eq_nil_iff.mpr (allBlank_iff.mp h)

theorem trim_of_allBlank (h : allBlank l) : trim l = [] := by
  rw [trim, trimStart_eq_nil h]
  rfl

theorem trim_append_left (hpre : allBlank pre) : trim (pre ++ l) = trim l := by
  rw [trim, trimStart_append hpre, trim]

theorem trim_append_right (hpost : allBlank post) : trim (l ++ post) = trim l := by
  rw [trim, trimStart, List.dropWhile_append]
  split
  · next h =>
    rw [trim, trimStart, List.isEmpty_iff.mp h]
    exact congrArg trimEnd (trimStart_eq_nil hpost)
  · exact trimEnd_append hpost

theorem trimStart_eq_self_iff : trimStart l = l ↔ ∀ c ∈ l.head?, isBlank c = false := by
  cases l with
  | nil => simp [trimStart]
  | cons c l =>
    rw [trimStart, List.dropWhile_cons]
    cases h : isBlank c with
    | false => simp [h]
    | true =>
      have hne : l.dropWhile isBlank ≠ c :: l := fun heq => by
        have := (List.dropWhile_suffix isBlank (l := l)).length_le
        rw [heq, List.length_cons] at this
        omega
      simp [h, hne]

theorem trimEnd_eq_self_iff : trimEnd l = l ↔ ∀ c ∈ l.getLast?, isBlank c = false := by
  rw [← List.head?_reverse, ← trimStart_eq_self_iff, trimEnd, dropTailWhile, trimStart,
    List.reverse_eq_iff]

/-- **What is kept.** -/
theorem trim_eq_self_iff : trim l = l ↔
    (∀ c ∈ l.head?, isBlank c = false) ∧ ∀ c ∈ l.getLast?, isBlank c = false := by
  rw [← trimStart_eq_self_iff, ← trimEnd_eq_self_iff]
  constructor
  · intro h
    have hstart : trimStart l = l := by
      -- nothing can be dropped in front when the length stays
      refine (List.dropWhile_suffix isBlank).eq_of_length (Nat.le_antisymm ?_ ?_)
      · exact (List.dropWhile_suffix isBlank).length_le
      · conv_lhs => rw [← h, trim, trimEnd, dropTailWhile, List.length_reverse]
        exact (List.dropWhile_suffix isBlank).length_le.trans_eq List.length_reverse
    exact ⟨hstart, by rwa [trim, hstart] at h⟩
  · rintro ⟨hstart, hend⟩
    rw [trim, hstart, hend]

theorem mem_dropWhile {α : Type} {p : α → Bool} {x : α} {l : List α} (hx : p x = false)
    (h : x ∈ l) : x ∈ l.dropWhile p := by
  rw [← List.takeWhile_append_dropWhile (p := p) (l := l), List.mem_append] at h
  refine h.resolve_left fun hmem => ?_
  rw [List.mem_takeWhile_imp hmem] at hx
  cases hx

theorem mem_trimEnd (hc : isBlank c = false) (h : c ∈ l) : c ∈ trimEnd l := by
  rw [trimEnd, dropTailWhile, List.mem_reverse]
  exact mem_dropWhile hc (List.mem_reverse.mpr h)

theorem trimEnd_append_of_ne_nil (pre : List Char) (h : trimEnd l ≠ []) :
    trimEnd (pre ++ l) = pre ++ trimEnd l := by
  have hne : (l.reverse.dropWhile isBlank).isEmpty = false := by
    rw [List.isEmpty_eq_false_iff]
    exact fun hnil => h (List.reverse_eq_nil_iff.mpr hnil)
  rw [trimEnd, dropTailWhile, List.reverse_append, List.dropWhile_append, hne]
  simp [trimEnd, dropTailWhile]

/-- Trimming takes white space off both ends. -/
theorem exists_append_trim_append (l : List Char) :
    ∃ a b, allBlank a ∧ allBlank b ∧ l = a ++ trim l ++ b := by
  have hback : (trimStart l).reverse.dropWhile isBlank = (trim l).reverse := by
    rw [trim, trimEnd, dropTailWhile, List.reverse_reverse]
  refine ⟨l.takeWhile isBlank, ((trimStart l).reverse.takeWhile isBlank).reverse, ?_, ?_, ?_⟩
  · exact allBlank_iff.mpr fun c hc => List.mem_takeWhile_imp hc
  · exact allBlank_iff.mpr fun c hc => List.mem_takeWhile_imp (List.mem_reverse.mp hc)
  · rw [List.append_assoc, ← List.reverse_reverse (trim l), ← hback, ← List.reverse_append,
      List.takeWhile_append_dropWhile, List.reverse_reverse]
    exact (List.takeWhile_append_dropWhile).symm

theorem trim_trim (l : List Char) : trim (trim l) = trim l := by
  obtain ⟨a, b, ha, hb, hl⟩ := exists_append_trim_append l
  conv_rhs => rw [hl, trim_append_right hb, trim_append_left ha]

theorem mem_of_mem_trim (h : c ∈ trim l) : c ∈ l := by
  obtain ⟨a, b, -, -, hl⟩ := exists_append_trim_append l
  rw [hl]
  exact List.mem_append_left _ (List.mem_append_right _ h)

theorem trim_eq_nil_iff : trim l = [] ↔ allBlank l := by
  refine ⟨fun h => ?_, trim_of_allBlank⟩
  obtain ⟨a, b, ha, hb, hl⟩ := exists_append_trim_append l
  rw [hl, h, List.append_nil, allBlank, List.all_append]
  exact Bool.and_eq_true_iff.mpr ⟨ha, hb⟩

theorem trimEnd_trimEnd (l : List Char) : trimEnd (trimEnd l) = trimEnd l :=
  List.rdropWhile_idempotent isBlank l

/-- What ends with white space nowhere is empty or has other characters. -/
theorem allBlank_eq_false_of_trimEnd_eq (h : trimEnd l = l) (hne : l ≠ []) :
    allBlank l = false := by
  refine Bool.eq_false_iff.mpr fun hblank => hne ?_
  rw [← h, ← List.nil_append l, trimEnd_append hblank]
  rfl

/-! ### Lines -/

variable {ls : List (List Char)}

theorem notMem_of_mem_lines {t : List Char} (h : l ∈ lines t) : '\n' ∉ l := by
  have hended : ∀ l ∈ (splitOn '\n' t).dropLast.map
      (fun p => if p.getLast? = some '\r' then p.dropLast else p), '\n' ∉ l := by
    intro l hl
    obtain ⟨p, hp, rfl⟩ := List.mem_map.mp hl
    have hpiece := notMem_of_mem_splitOn (List.dropLast_subset _ hp)
    split
    · exact fun hmem => hpiece (List.dropLast_subset p hmem)
    · exact hpiece
  rw [lines] at h
  split at h
  · exact hended l h
  · next last _ hlast =>
    obtain h | h := List.mem_append.mp h
    · exact hended l h
    · rw [List.mem_singleton.mp h]
      exact notMem_of_mem_splitOn (List.mem_of_getLast? hlast)
  · exact hended l h

theorem join_append (sep : List Char) {a b : List (List Char)} (ha : a ≠ []) (hb : b ≠ []) :
    join sep (a ++ b) = join sep a ++ sep ++ join sep b := by
  induction a with
  | nil => exact absurd rfl ha
  | cons p a ih =>
    cases a with
    | nil =>
      obtain ⟨q, r, rfl⟩ := List.exists_cons_of_ne_nil hb
      rfl
    | cons q a =>
      rw [List.cons_append, List.cons_append, join, ← List.cons_append, ih (List.cons_ne_nil _ _),
        join]
      simp only [List.append_assoc]

theorem allBlank_join {sep : List Char} (hsep : allBlank sep) (h : ∀ l ∈ ls, allBlank l) :
    allBlank (join sep ls) := by
  induction ls with
  | nil => rfl
  | cons l ls ih =>
    cases ls with
    | nil => exact h l List.mem_cons_self
    | cons m ls =>
      have hl : allBlank l := h l List.mem_cons_self
      have hrest := ih fun l hl => h l (List.mem_cons_of_mem _ hl)
      simp only [allBlank, join, List.all_append, Bool.and_eq_true] at hl hsep hrest ⊢
      exact ⟨⟨hl, hsep⟩, hrest⟩

theorem trim_join_append {a b : List (List Char)} (hb : ∀ l ∈ b, allBlank l) :
    trim (join ['\n'] (a ++ b)) = trim (join ['\n'] a) := by
  rcases eq_or_ne a [] with rfl | ha
  · rw [List.nil_append, trim_of_allBlank (allBlank_join rfl hb)]
    rfl
  rcases eq_or_ne b [] with rfl | hne
  · rw [List.append_nil]
  rw [join_append _ ha hne, List.append_assoc, trim_append_right]
  have hjoin := allBlank_join (show allBlank ['\n'] from rfl) hb
  simp only [allBlank, List.all_append, Bool.and_eq_true] at hjoin ⊢
  exact ⟨rfl, hjoin⟩

theorem trim_join_blank_append {a b : List (List Char)} (ha : ∀ l ∈ a, allBlank l) :
    trim (join ['\n'] (a ++ b)) = trim (join ['\n'] b) := by
  rcases eq_or_ne b [] with rfl | hb
  · rw [List.append_nil, trim_of_allBlank (allBlank_join rfl ha)]
    rfl
  rcases eq_or_ne a [] with rfl | hne
  · rw [List.nil_append]
  rw [join_append _ hne hb, trim_append_left]
  have hjoin := allBlank_join (show allBlank ['\n'] from rfl) ha
  simp only [allBlank, List.all_append, Bool.and_eq_true] at hjoin ⊢
  exact ⟨hjoin, rfl⟩

theorem head?_join {sep : List Char} (hl : l ≠ []) :
    (join sep (l :: ls)).head? = l.head? := by
  cases ls with
  | nil => rfl
  | cons m ls => rw [join, List.append_assoc, List.head?_append_of_ne_nil _ hl]

theorem getLast?_join {sep : List Char} (hl : l ≠ []) :
    (join sep (ls ++ [l])).getLast? = l.getLast? := by
  rcases eq_or_ne ls [] with rfl | hne
  · rfl
  · rw [join_append _ hne (List.cons_ne_nil _ _)]
    exact List.getLast?_append_of_ne_nil _ hl

/-- Joined lines are kept if the first begins and the last ends with other characters. -/
theorem trim_join_eq_self {sep : List Char}
    (hhead : ∀ l ∈ ls.head?, l ≠ [] ∧ trimStart l = l)
    (hlast : ∀ l ∈ ls.getLast?, l ≠ [] ∧ trimEnd l = l) :
    trim (join sep ls) = join sep ls := by
  rw [trim_eq_self_iff]
  constructor
  · cases ls with
    | nil => nofun
    | cons l ls =>
      obtain ⟨hne, htrim⟩ := hhead l rfl
      rw [head?_join hne]
      exact trimStart_eq_self_iff.mp htrim
  · rcases List.eq_nil_or_concat' ls with rfl | ⟨init, l, rfl⟩
    · nofun
    · obtain ⟨hne, htrim⟩ := hlast l List.getLast?_concat
      rw [getLast?_join hne]
      exact trimEnd_eq_self_iff.mp htrim

/-- **Lines are found again**, if they have no line endings of their own and the last one is not
empty. -/
theorem lines_join (hnewline : ∀ l ∈ ls, '\n' ∉ l) (hreturn : ∀ l ∈ ls, l.getLast? ≠ some '\r')
    (hlast : ls.getLast? ≠ some []) : lines (join ['\n'] ls) = ls := by
  rcases eq_or_ne ls [] with rfl | hne
  · rfl
  have hended : ls.dropLast.map (fun p => if p.getLast? = some '\r' then p.dropLast else p)
      = ls.dropLast :=
    (List.map_congr_left fun p hp => if_neg (hreturn p (List.dropLast_subset _ hp))).trans
      (List.map_id _)
  rw [lines, splitOn_join hne hnewline]
  simp only [hended]
  split
  · next h => exact absurd h hlast
  · next last _ h => exact List.dropLast_append_getLast? last h
  · next h => exact absurd (List.getLast?_eq_none_iff.mp h) hne

/-! ### Bytes -/

theorem dropBytes_append {n : Nat} (h : n ≤ byteSize l) (m : List Char) :
    dropBytes n (l ++ m) = (dropBytes n l).map (· ++ m) := by
  induction l generalizing n with
  | nil =>
    obtain rfl : n = 0 := Nat.le_zero.mp h
    simp [dropBytes]
  | cons c r ih =>
    cases n with
    | zero => simp [dropBytes]
    | succ n =>
      rw [byteSize] at h
      rw [List.cons_append, dropBytes, dropBytes]
      split
      · exact ih (by omega)
      · rfl

theorem suffix_of_dropBytes {n : Nat} (h : dropBytes n l = some pre) : pre <:+ l := by
  fun_induction dropBytes n l with
  | case1 l =>
    obtain rfl := Option.some.inj h
    exact List.suffix_rfl
  | case2 => cases h
  | case3 n c r hle ih => exact (ih h).trans (List.suffix_cons c r)
  | case4 => cases h

theorem byteSize_pos (h : l ≠ []) : 0 < byteSize l := by
  obtain ⟨c, r, rfl⟩ := List.exists_cons_of_ne_nil h
  exact Nat.add_pos_left (Char.utf8Size_pos c) _

end ApiSurface.Text
