import MotionExpr.Proofs.Format.Lines
import MotionExpr.Format.Edit

/-!
Where edits cut. The offset of a column of a line is the length of the lines above
it, newlines included, and of what stands in front of the column. So an edit of one
whole line puts the new text in its place and leaves the other lines alone.
-/

namespace MotionExpr
namespace TextEdit

open Text

/-- The lines above a line, each with its newline. -/
def above (ls : List Text) : Text := ls.flatMap (· ++ ['\n'])

/-- The lines below a line, each behind its newline. -/
def below : List Text → Text
  | [] => []
  | ls => '\n' :: unlines ls

theorem length_above (ls : List Text) : (above ls).length = lengthWithNewlines ls := by
  induction ls with
  | nil => rfl
  | cons l ls ih =>
      have rest : (ls.flatMap (· ++ ['\n'])).length = lengthWithNewlines ls := ih
      simp only [above, List.flatMap_cons, List.length_append, List.length_singleton, rest,
        lengthWithNewlines]

theorem unlines_around (before : List Text) (l : Text) (behind : List Text) :
    unlines (before ++ l :: behind) = above before ++ l ++ below behind := by
  induction before with
  | nil =>
      cases behind with
      | nil => exact (List.append_nil l).symm
      | cons m ms => rfl
  | cons k ks ih =>
      rw [List.cons_append, unlines_cons k (by simp), ih]
      simp only [above, List.flatMap_cons, List.append_assoc, List.cons_append, List.nil_append]

theorem above_append (ls ms : List Text) : above (ls ++ ms) = above ls ++ above ms :=
  List.flatMap_append

theorem lines_above_append {ls : List Text} (h : ∀ l ∈ ls, '\n' ∉ l) (t : Text) :
    lines (above ls ++ t) = ls ++ lines t := by
  induction ls with
  | nil => rfl
  | cons l ls ih =>
      obtain ⟨here, rest⟩ := List.forall_mem_cons.mp h
      have split : above (l :: ls) ++ t = l ++ '\n' :: (above ls ++ t) := by
        simp only [above, List.flatMap_cons, List.append_assoc, List.cons_append, List.nil_append]
      rw [split, lines_append_newline here, ih rest, List.cons_append]

theorem lines_append_below {ls : List Text} (h : ∀ l ∈ ls, '\n' ∉ l) (t : Text) :
    lines (t ++ below ls) = lines t ++ ls := by
  cases ls with
  | nil => rw [below, List.append_nil, List.append_nil]
  | cons l ls =>
      have split : t ++ below (l :: ls) = t ++ '\n' :: unlines (l :: ls) := rfl
      rw [split, lines_newline, lines_unlines (List.cons_ne_nil l ls) h]

section Line

variable {source l : Text} {before behind : List Text}
  (h : lines source = before ++ l :: behind)

include h

theorem source_around : source = above before ++ l ++ below behind := by
  rw [← unlines_around, ← h, unlines_lines]

/-- A place within a line. -/
theorem offset_around {i : Nat} (hi : i ≤ l.length) :
    offset source (before.length + 1) (i + 1) = (above before).length + i := by
  have total : (before ++ l :: behind).length = before.length + 1 + behind.length := by
    rw [List.length_append, List.length_cons]
    omega
  have row : clamp (before.length + 1) (before ++ l :: behind).length - 1 = before.length := by
    rw [total, clamp]
    omega
  have column : clamp (i + 1) (l.length + 1) - 1 = i := by
    rw [clamp]
    omega
  have here : (before ++ l :: behind)[before.length]? = some l := by
    rw [List.getElem?_append_right (Nat.le_refl _), Nat.sub_self, List.getElem?_cons_zero]
  rw [offset, h, offsetIn]
  simp only [row, here, Option.getD_some, column, List.take_left, length_above]

/-- An edit of a whole line changes that line only. -/
theorem apply_line (new : Text) :
    apply source ⟨⟨before.length + 1, 1, before.length + 1, l.length + 1⟩, new⟩ =
      unlines (before ++ new :: behind) := by
  have start : offset source (before.length + 1) 1 = (above before).length :=
    offset_around h (Nat.zero_le _)
  have stop : offset source (before.length + 1) (l.length + 1) = (above before ++ l).length := by
    rw [offset_around h (Nat.le_refl _), List.length_append]
  rw [unlines_around, apply, TextRange.start, TextRange.stop]
  simp only [start, stop]
  rw [source_around h, List.drop_left, List.append_assoc (above before) l, List.take_left]

theorem lines_apply_line {new : Text} (hn : '\n' ∉ new) :
    lines (apply source ⟨⟨before.length + 1, 1, before.length + 1, l.length + 1⟩, new⟩) =
      before ++ new :: behind := by
  rw [apply_line h]
  apply lines_unlines (by simp)
  intro k hk
  rcases List.mem_append.mp hk with hk | hk
  · exact not_newline_of_mem_lines (h ▸ List.mem_append_left _ hk)
  · rcases List.mem_cons.mp hk with rfl | hk
    · exact hn
    · exact not_newline_of_mem_lines (h ▸ List.mem_append_right _ (List.mem_cons_of_mem _ hk))

end Line
end TextEdit
end MotionExpr
