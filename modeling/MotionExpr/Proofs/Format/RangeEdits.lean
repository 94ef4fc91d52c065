import MotionExpr.Proofs.Format.Edits

/-!
Formatting a range of a text, or the whole of it, by an edit. Every place that is asked for
lies in some line, perhaps after it was moved there, and its offset cuts that line: above the
cut there are the lines above and the front of the line. The edit puts the formatted slice
between what is in front of the range and what is behind it.
-/

namespace MotionExpr

open Text

namespace TextEdit

/-- Every place is moved into a line, to one of its characters or to its end. -/
theorem exists_place (source : Text) (line column : Int) :
    ∃ before l behind i, lines source = before ++ l :: behind ∧ i ≤ l.length ∧
      offset source line column = (above before).length + i := by
  have nonempty := length_lines_pos source
  have row : clamp line (lines source).length - 1 < (lines source).length := by
    rw [clamp]
    omega
  obtain ⟨before, l, behind, hlines, hlength⟩ :
      ∃ before l behind, lines source = before ++ l :: behind ∧
        before.length = clamp line (lines source).length - 1 :=
    ⟨_, _, _, (List.take_append_drop _ _).symm.trans
      (congrArg _ (List.drop_eq_getElem_cons row)), List.length_take_of_le row.le⟩
  have inLine : clamp column (l.length + 1) - 1 ≤ l.length := by
    rw [clamp]
    omega
  refine ⟨before, l, behind, clamp column (l.length + 1) - 1, hlines, inLine, ?_⟩
  rw [offset, offsetIn, ← hlength, hlines, List.getElem?_append_right (Nat.le_refl _), Nat.sub_self,
    List.getElem?_cons_zero, Option.getD_some, List.take_left, length_above]

theorem offset_le_length (source : Text) (line column : Int) :
    offset source line column ≤ source.length := by
  obtain ⟨before, l, behind, i, hlines, hi, hoffset⟩ := exists_place source line column
  have whole := congrArg List.length (source_around hlines)
  rw [List.length_append, List.length_append] at whole
  omega

section Line

variable {source l : Text} {before behind : List Text}
  (h : lines source = before ++ l :: behind)

include h

/-- In front of a place there are the lines above it and the front of its line. -/
theorem take_offset {i : Nat} (hi : i ≤ l.length) :
    source.take (offset source (before.length + 1) (i + 1)) = above before ++ l.take i := by
  rw [offset_around h hi]
  conv_lhs => rw [source_around h, List.append_assoc, List.take_length_add_append]
  rw [List.take_append_of_le_length hi]

theorem count_above : (above before).count '\n' = before.length := by
  have onLine : ∀ k ∈ before, '\n' ∉ k := fun k hk =>
    not_newline_of_mem_lines (h ▸ List.mem_append_left _ hk)
  clear h
  induction before with
  | nil => rfl
  | cons k ks ih =>
      obtain ⟨hk, hks⟩ := List.forall_mem_cons.mp onLine
      have rest : (ks.flatMap (· ++ ['\n'])).count '\n' = ks.length := ih hks
      rw [above, List.flatMap_cons, List.count_append, List.count_append, rest,
        List.count_eq_zero_of_not_mem hk, List.count_singleton_self, List.length_cons]
      omega

end Line

section Row

variable {source l : Text} {row : Nat} (hl : (lines source)[row]? = some l)

include hl

theorem lines_around_row :
    lines source = (lines source).take row ++ l :: (lines source).drop (row + 1) ∧
      ((lines source).take row).length = row := by
  obtain ⟨inside, rfl⟩ := List.getElem?_eq_some_iff.mp hl
  exact ⟨by rw [List.getElem_cons_drop, List.take_append_drop], List.length_take_of_le inside.le⟩

theorem take_row {i : Nat} (hi : i ≤ l.length) :
    source.take (offset source (row + 1) (i + 1)) = above ((lines source).take row) ++ l.take i := by
  obtain ⟨hlines, length⟩ := lines_around_row hl
  have place := take_offset hlines hi
  rwa [length] at place

theorem drop_row :
    source.drop (offset source (row + 1) (l.length + 1)) = below ((lines source).drop (row + 1)) := by
  obtain ⟨hlines, -⟩ := lines_around_row hl
  have whole := (List.take_append_drop (offset source (row + 1) (l.length + 1)) source).trans
    (source_around hlines)
  rw [take_row hl (Nat.le_refl _), List.take_length] at whole
  exact List.append_cancel_left whole

end Row

/-- A place that need not be moved: in front of it are the lines above, with as many newlines
as there are such lines, and behind the last of them the front of its own line. -/
theorem take_offset_of_place {source l : Text} {line column : Int} (hline : 1 ≤ line)
    (hl : (lines source)[(line - 1).toNat]? = some l) (hcolumn : 1 ≤ column)
    (hend : column ≤ l.length + 1) :
    source.take (offset source line column) =
        above ((lines source).take (line - 1).toNat) ++ l.take (column - 1).toNat ∧
      (source.take (offset source line column)).count '\n' = (line - 1).toNat := by
  obtain ⟨hlines, rows⟩ := lines_around_row hl
  have sameLine : ((line - 1).toNat : Int) + 1 = line := by omega
  have sameColumn : ((column - 1).toNat : Int) + 1 = column := by omega
  have place := take_row hl (i := (column - 1).toNat) (by omega)
  rw [sameLine, sameColumn] at place
  have onLine : '\n' ∉ l.take (column - 1).toNat := fun hm =>
    not_newline_of_mem_lines (List.mem_of_getElem? hl) (List.mem_of_mem_take hm)
  refine ⟨place, ?_⟩
  rw [place, List.count_append, count_above hlines, rows, List.count_eq_zero_of_not_mem onLine,
    Nat.add_zero]

end TextEdit

namespace TextRange

theorem start_whole (source : Text) : (whole source).start source = 0 := by
  obtain ⟨l, ls, hlines⟩ := List.exists_cons_of_ne_nil (lines_ne_nil source)
  have first : lines source = [] ++ l :: ls := hlines
  exact TextEdit.offset_around first (Nat.zero_le _)

theorem stop_whole (source : Text) : (whole source).stop source = source.length := by
  obtain ⟨before, l, hlines⟩ := (List.eq_nil_or_concat (lines source)).resolve_left (lines_ne_nil source)
  rw [List.concat_eq_append] at hlines
  have last : (lines source).getLastD [] = l := by rw [hlines, List.getLastD_concat]
  have count : ((lines source).length : Int) = before.length + 1 := by simp [hlines]
  have place := TextEdit.offset_around hlines (Nat.le_refl l.length)
  have length := congrArg List.length (TextEdit.source_around hlines)
  rw [TextEdit.below, List.append_nil, List.length_append] at length
  rw [stop, whole, last, count, place, length]

theorem slice_whole (source : Text) : (whole source).slice source = source := by
  rw [slice, start_whole, stop_whole, List.take_length, List.drop_zero]

/-- A range whose start is not behind its end: the text is what is in front of it, the slice,
and what is behind it. -/
theorem take_append_slice {r : TextRange} {source : Text} (h : r.start source ≤ r.stop source) :
    source.take (r.start source) ++ r.slice source ++ source.drop (r.stop source) = source := by
  have front : source.take (r.start source) = (source.take (r.stop source)).take (r.start source) := by
    rw [List.take_take, Nat.min_eq_left h]
  rw [front, slice, List.take_append_drop, List.take_append_drop]

end TextRange

namespace Formatter

theorem formatRange_eq_nil_iff (f : Formatter) (source : Text) (r : TextRange) :
    f.formatRange source r = [] ↔ (f.format (r.slice source)).text = r.slice source := by
  rw [formatRange]
  split
  · next same => exact iff_of_true rfl same
  · next changed => exact iff_of_false (List.cons_ne_nil _ _) changed

theorem applyAll_formatRange (f : Formatter) {source : Text} {r : TextRange}
    (h : r.start source ≤ r.stop source) :
    TextEdit.applyAll source (f.formatRange source r) =
      source.take (r.start source) ++ (f.format (r.slice source)).text ++
        source.drop (r.stop source) := by
  rw [formatRange]
  split
  · next same =>
      rw [same, TextRange.take_append_slice h]
      rfl
  · rfl

/-- Formatting by edits is formatting: of the whole text, and of the slice that a range cuts
out. Both cuts of a range are in the text, and a place in the text is where its cut is. -/
theorem edits_format (f : Formatter) (source : Text) :
    TextEdit.applyAll source (f.formatDocument source) = (f.format source).text ∧
    (f.formatDocument source = [] ↔ (f.format source).text = source) ∧
    (∀ r : TextRange, r.start source ≤ r.stop source →
      TextEdit.applyAll source (f.formatRange source r) =
        source.take (r.start source) ++ (f.format (r.slice source)).text ++
          source.drop (r.stop source)) ∧
    (∀ r : TextRange, f.formatRange source r = [] ↔
      (f.format (r.slice source)).text = r.slice source) ∧
    (∀ line column : Int, TextEdit.offset source line column ≤ source.length) ∧
    ∀ (line column : Int) (l : Text), 1 ≤ line → (lines source)[(line - 1).toNat]? = some l →
      1 ≤ column → column ≤ l.length + 1 →
      source.take (TextEdit.offset source line column) =
          TextEdit.above ((lines source).take (line - 1).toNat) ++ l.take (column - 1).toNat ∧
        (source.take (TextEdit.offset source line column)).count '\n' = (line - 1).toNat := by
  have inside : (TextRange.whole source).start source ≤ (TextRange.whole source).stop source := by
    rw [TextRange.start_whole]
    exact Nat.zero_le _
  have document := f.applyAll_formatRange inside
  rw [TextRange.start_whole, TextRange.stop_whole, TextRange.slice_whole, List.take_zero,
    List.nil_append, List.drop_length, List.append_nil] at document
  have unchanged := f.formatRange_eq_nil_iff source (TextRange.whole source)
  rw [TextRange.slice_whole] at unchanged
  refine ⟨document, unchanged, fun r hr => f.applyAll_formatRange hr,
    f.formatRange_eq_nil_iff source, TextEdit.offset_le_length source, ?_⟩
  intro line column l hline hl hcolumn hend
  exact TextEdit.take_offset_of_place hline hl hcolumn hend

/-- The second line alone, whose end is asked for with a column that is too large. -/
theorem edits_format_line :
    let f : Formatter := {}
    let source := "a=1\nb =2\nc".toList
    let r : TextRange := ⟨2, 1, 2, 99⟩
    r.start source ≤ r.stop source ∧ r.slice source = "b =2".toList ∧
      TextEdit.applyAll source (f.formatRange source r) =
        "a=1\n".toList ++ (f.format "b =2".toList).text ++ "\nc".toList ∧
      source.take (TextEdit.offset source 2 3) = "a=1\nb ".toList := by
  intro f source r
  have ordered : r.start source ≤ r.stop source := by decide
  have edited := (edits_format f source).2.2.1 r ordered
  have placed := (edits_format f source).2.2.2.2.2 2 3 "b =2".toList (by decide) rfl (by decide) (by decide)
  exact ⟨ordered, rfl, edited, placed.1⟩

end Formatter
end MotionExpr
