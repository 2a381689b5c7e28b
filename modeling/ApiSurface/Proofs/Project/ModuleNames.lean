import Mathlib.Data.List.Basic
import ApiSurface.Proofs.Project.Imports
import ApiSurface.Proofs.Text.Trimming

/-!
# Segments of module names

Module names are compared as texts: a name stands for the wanted one when it ends with it, behind a
dot. What is meant is a comparison of segments, the pieces between dots. For all texts the two are
the same (`isMatch_iff_segments`), those with empty segments and with dots at their ends included:
a text ends with another one behind a separator exactly when its pieces end with the pieces of the
other (`splitOn_suffix_iff`).
-/

namespace ApiSurface.Text

variable {sep : Char} {l m : List Char}

/-- The pieces of a text end with those of another one if it ends with it, behind a separator. -/
theorem splitOn_suffix_iff : splitOn sep m <:+ splitOn sep l ↔ l = m ∨ (sep :: m) <:+ l := by
  constructor
  · rintro ⟨front, hfront⟩
    have hjoin : join [sep] (front ++ splitOn sep m) = l := by rw [hfront, join_splitOn]
    rcases eq_or_ne front [] with rfl | hne
    · rw [List.nil_append, join_splitOn] at hjoin
      exact .inl hjoin.symm
    · -- the separator between the two groups of pieces is the one in front of the second text
      rw [join_append [sep] hne (splitOn_ne_nil sep m), join_splitOn, List.append_assoc,
        List.singleton_append] at hjoin
      exact .inr ⟨join [sep] front, hjoin⟩
  · rintro (rfl | ⟨front, rfl⟩)
    · exact List.suffix_rfl
    · rw [splitOn_append_sep]
      exact List.suffix_append _ _

end ApiSurface.Text

namespace ApiSurface.Module

open ApiSurface.Text (endsWith join splitOn splitString)

variable {candidate wanted before : String}

/-! ### Segments -/

/-- The segments of a module name: what stands between its dots. -/
def segments (name : String) : List String := splitString '.' name

theorem map_toList_segments (name : String) :
    (segments name).map String.toList = splitOn '.' name.toList := by
  rw [segments, splitString, List.map_map]
  exact List.map_id'' (fun _ => String.toList_ofList) _

theorem segments_suffix_iff :
    segments wanted <:+ segments candidate ↔
      splitOn '.' wanted.toList <:+ splitOn '.' candidate.toList := by
  constructor
  · intro h
    rw [← map_toList_segments, ← map_toList_segments]
    exact h.map String.toList
  · intro h
    exact h.map String.ofList

/-! ### Matching -/

/-- A name stands for the wanted one if its segments end with those of the wanted one. -/
theorem isMatch_iff_suffix :
    isMatch candidate wanted = true ↔ wanted ≠ "" ∧ segments wanted <:+ segments candidate := by
  rcases eq_or_ne wanted "" with rfl | hne
  · simp [isMatch, matchesChars]
  · rw [isMatch_iff hne, segments_suffix_iff, Text.splitOn_suffix_iff, String.toList_inj]
    simp [hne, IsLookAlike]

/-- Text in front of the wanted name may only be segments, each with its dot. -/
theorem isMatch_append_iff :
    isMatch (before ++ wanted) wanted = true ↔
      wanted ≠ "" ∧ (before = "" ∨ endsWith before "." = true) := by
  rcases eq_or_ne wanted "" with rfl | hne
  · simp [isMatch, matchesChars]
  · have hlook : IsLookAlike (before ++ wanted) wanted ↔ endsWith before "." = true := by
      rw [IsLookAlike, String.toList_append, ← List.singleton_append, List.suffix_append_self_iff,
        endsWith, List.isSuffixOf_iff_suffix]
      rfl
    rw [isMatch_iff hne, hlook, String.append_eq_right_iff]
    exact (and_iff_right hne).symm

/-- **Names are matched by segments.** A name stands for the wanted one if there is a wanted one and
the segments of the name end with its segments. So every name but the empty one stands for itself,
names that stand for one another can be followed, and no match begins inside a segment. -/
theorem isMatch_segmentwise :
    (∀ candidate wanted, isMatch candidate wanted = true ↔
      wanted ≠ "" ∧ segments wanted <:+ segments candidate) ∧
    (∀ name, isMatch name name = true ↔ name ≠ "") ∧
    (∀ a b c, isMatch a b = true → isMatch b c = true → isMatch a c = true) ∧
    ∀ before wanted, isMatch (before ++ wanted) wanted = true ↔
      wanted ≠ "" ∧ (before = "" ∨ endsWith before "." = true) := by
  refine ⟨fun _ _ => isMatch_iff_suffix, fun name => ?_, fun a b c hab hbc => ?_,
    fun _ _ => isMatch_append_iff⟩
  · rw [isMatch_iff_suffix]
    exact and_iff_left List.suffix_rfl
  · obtain ⟨-, hab⟩ := isMatch_iff_suffix.mp hab
    obtain ⟨hne, hbc⟩ := isMatch_iff_suffix.mp hbc
    exact isMatch_iff_suffix.mpr ⟨hne, hbc.trans hab⟩

/-- Empty segments count like others. -/
theorem isMatch_segmentwise_emptySegments :
    isMatch "..a..b." "a..b." = true ∧ isMatch "a..b." ".b." = true ∧
      isMatch "..a..b." ".b." = true := by
  have hfirst : isMatch "..a..b." "a..b." = true := by decide
  have hsecond : isMatch "a..b." ".b." = true := by decide
  obtain ⟨-, -, htrans, -⟩ := isMatch_segmentwise
  exact ⟨hfirst, hsecond, htrans _ _ _ hfirst hsecond⟩

example : isMatch "src.app.routers" "app.routers" = true := by decide

example : isMatch "src.myapp.routers" "app.routers" = false := by decide

end ApiSurface.Module
