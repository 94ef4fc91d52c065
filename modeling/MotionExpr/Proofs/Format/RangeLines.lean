import MotionExpr.Proofs.Format.Bodies
import MotionExpr.Proofs.Format.RangeEdits

/-!
Formatting whole lines within a text, with the limit on line length off. The edit leaves the lines
above and below alone. Each line of the range becomes one line, and the newline at the end of the
formatted text opens one more, unless the text ends in an empty line already: the slice is taken for
a text of its own, which on typing it is not.
-/

namespace MotionExpr

open Text

namespace TextRange

theorem lines_between {source last : Text} {top bottom : Nat} (ordered : top ≤ bottom)
    (hlast : (lines source)[bottom]? = some last) :
    ((lines source).take (bottom + 1)).drop top = ((lines source).take bottom).drop top ++ [last] := by
  have inside : bottom < (lines source).length := (List.getElem?_eq_some_iff.mp hlast).1
  rw [List.take_add_one, hlast, Option.toList_some,
    List.drop_append_of_le_length (by rw [List.length_take]; omega)]

theorem lines_unlines_between {source last : Text} {top bottom : Nat} (ordered : top ≤ bottom)
    (hlast : (lines source)[bottom]? = some last) :
    let between := ((lines source).take (bottom + 1)).drop top
    lines (unlines between) = between ∧ between.getLast? = some last := by
  have split := lines_between ordered hlast
  refine ⟨lines_unlines ?_ fun l hl => ?_, by rw [split, List.getLast?_concat]⟩
  · rw [split]
    exact List.concat_ne_nil _ _
  · exact not_newline_of_mem_lines (List.mem_of_mem_take (List.mem_of_mem_drop hl))

/-- From the first column of one line to the end of another there are the lines between. -/
theorem cut_lines {source last : Text} {top bottom : Nat} (ordered : top ≤ bottom)
    (hlast : (lines source)[bottom]? = some last) :
    let r : TextRange := ⟨top + 1, 1, bottom + 1, last.length + 1⟩
    source.take (r.start source) = TextEdit.above ((lines source).take top) ∧
      r.start source ≤ r.stop source ∧
      r.slice source = unlines (((lines source).take (bottom + 1)).drop top) ∧
      source.drop (r.stop source) = TextEdit.below ((lines source).drop (bottom + 1)) := by
  intro r
  have inside : bottom < (lines source).length := (List.getElem?_eq_some_iff.mp hlast).1
  have front : source.take (r.start source) = TextEdit.above ((lines source).take top) := by
    have place := TextEdit.take_row (List.getElem?_eq_getElem (ordered.trans_lt inside))
      (Nat.zero_le _)
    rwa [List.take_zero, List.append_nil] at place
  have upTo : source.take (r.stop source) = TextEdit.above ((lines source).take top) ++
      unlines (((lines source).take (bottom + 1)).drop top) := by
    have rows : (lines source).take bottom =
        (lines source).take top ++ ((lines source).take bottom).drop top := by
      rw [← List.take_append_drop top ((lines source).take bottom), List.take_take,
        Nat.min_eq_left ordered, List.drop_left' (List.length_take_of_le (by omega))]
    have place := TextEdit.take_row hlast (Nat.le_refl _)
    rw [List.take_length, rows, TextEdit.above_append, List.append_assoc] at place
    rw [lines_between ordered hlast, TextEdit.unlines_around, TextEdit.below, List.append_nil]
    exact place
  have start : (TextEdit.above ((lines source).take top)).length = r.start source := by
    rw [← front]
    exact List.length_take_of_le (TextEdit.offset_le_length ..)
  have ordered' : r.start source ≤ r.stop source := by
    have length := congrArg List.length upTo
    rw [List.length_append, start, List.length_take] at length
    omega
  refine ⟨front, ordered', ?_, TextEdit.drop_row hlast⟩
  rw [slice, upTo, ← start, List.drop_left]

end TextRange

namespace FormatSettings

open Formatter

/-- Formatting so many lines opens an empty one below them, if this is the last of them. -/
def OpensLine (s : FormatSettings) (count : Nat) (last : Text) : Prop :=
  s.insertFinalNewline.isTruthy = true ∧ (∃ unit, s.indentUnit = .ok unit) ∧
    (1 < count → ∃ c ∈ last, isBlank c = false)

variable {s : FormatSettings}

/-- In front of the last two passes there are as many lines, and a newline ends the text if the last
of them is blank. -/
theorem lines_of_run_of_noReturn {t v last : Text} (noReturn : '\r' ∉ t)
    (hlast : (lines t).getLast? = some last)
    (run : runPasses s.planOf (Pass.front ++ Pass.byLine) t = .ok v) :
    (lines v).length = (lines t).length ∧
      (v.getLast? = some '\n' ↔ 1 < (lines t).length ∧ ∀ c ∈ last, isBlank c = true) := by
  obtain ⟨unit, rows, -, hlines, bare, fits, -⟩ := exists_rows run
  rw [LineEnd.unify_eq_self noReturn] at bare
  have count : (lines v).length = (lines t).length := by
    have counts := congrArg List.length bare
    rwa [List.length_map, List.length_map, ← List.length_map (f := Row.text), ← hlines] at counts
  refine ⟨count, ?_⟩
  have lastBare := congrArg List.getLast? bare
  rw [List.getLast?_map, List.getLast?_map, hlast, Option.map_some, Option.map_eq_some_iff] at lastBare
  obtain ⟨r, hr, same⟩ := lastBare
  have alone : r.text = [] ↔ r.body = [] := by
    rw [Row.text, List.append_eq_nil_iff]
    exact ⟨And.right, fun none => ⟨(fits r (List.mem_of_getLast? hr)).2.2 none, none⟩⟩
  rw [getLast?_eq_newline_iff, count, hlines, List.getLast?_map, hr, Option.map_some, Option.some_inj,
    alone, ← isBare_iff, ← same, List.isEmpty_iff]

variable (off : s.lineLimit.IsOff)

include off

/-- With the limit off, whether a run succeeds is told by the unit of indentation. -/
theorem exists_run_iff {t : Text} (unmarked : Literal.mark ∉ t) :
    (∃ u, runPasses s.planOf Pass.all t = .ok u) ↔ ∃ unit, s.indentUnit = .ok unit := by
  have runs : (∃ u, runPasses s.planOf Pass.all t = .ok u) ↔
      ∀ p ∈ Pass.all, p = .indentation → ∃ unit, s.indentUnit = .ok unit := by
    refine @runPasses_ok_iff s.planOf (fun p => p = .indentation → ∃ unit, s.indentUnit = .ok unit)
      (fun p f t u hf hm hu => planOf_preserves hf hm hu) ?_ ?_ Pass.all t unmarked
    · rintro p none rfl
      cases none
    · intro p f t hf hm
      have regular (hr : s.regular.plan p = some f) : ∃ u, f t = .ok u := by
        obtain ⟨u, hu, -⟩ := plan_preserves hr hm
        exact ⟨u, hu⟩
      cases p with
      | indentation =>
          cases hf
          cases hunit : s.indentUnit with
          | error fault => simp [indentation, hunit, Plan.failing]
          | ok unit => simp [indentation, hunit]
      | lineLength =>
          rw [planOf, lineLength_eq_none_iff.mpr off] at hf
          cases hf
      | _ => exact iff_of_true (regular hf) fun indents => by cases indents
  rw [runs]
  exact ⟨fun h => h _ (Pass.mem_all _) rfl, fun h _ _ _ => h⟩

end FormatSettings

namespace Formatter

open FormatSettings

/-- Formatted lines number as many as before, or one more. -/
theorem length_lines_format {s : FormatSettings} (off : s.lineLimit.IsOff) {t last : Text}
    (unmarked : Literal.mark ∉ t) (noReturn : '\r' ∉ t) (hlast : (lines t).getLast? = some last) :
    let n := (lines (format { plan := s.planOf } t).text).length
    n = (lines t).length ∧ ¬s.OpensLine (lines t).length last ∨
      n = (lines t).length + 1 ∧ s.OpensLine (lines t).length last := by
  intro n
  have runs := exists_run_iff off unmarked
  cases run : runPasses s.planOf Pass.all t with
  | error failure =>
      have kept : (format { plan := s.planOf } t).text = t := by rw [format, formatWith, run]
      refine .inl ⟨by rw [← kept], fun opens => ?_⟩
      obtain ⟨u, hu⟩ := runs.mpr opens.2.1
      rw [run] at hu
      cases hu
  | ok u =>
      have made : (format { plan := s.planOf } t).text = u := by rw [format, formatWith, run]
      obtain ⟨v, hv, hu⟩ := (runPasses_append ..).mp (Pass.all_eq ▸ run)
      obtain ⟨count, closed⟩ := lines_of_run_of_noReturn noReturn hlast hv
      rw [runPasses_back off] at hu
      obtain rfl := Except.ok.inj hu
      dsimp only [n]
      rw [made]
      split
      · next asked =>
          rw [LineEnd.close]
          split
          · next already =>
              obtain ⟨several, blank⟩ := closed.mp already
              refine .inl ⟨count, fun opens => ?_⟩
              obtain ⟨c, hc, ink⟩ := opens.2.2 several
              rw [blank c hc] at ink
              cases ink
          · next missing =>
              rw [lines_newline, List.length_append, count]
              refine .inr ⟨rfl, asked, runs.mp ⟨_, run⟩, fun several => by_contra fun none => ?_⟩
              exact missing (closed.mpr ⟨several, by simpa using none⟩)
      · next unasked => exact .inl ⟨count, fun opens => unasked opens.1⟩

/-- The edit puts the formatted lines in the place of those between. -/
theorem lines_formatRange (f : Formatter) {source last : Text} {top bottom : Nat}
    (ordered : top ≤ bottom) (hlast : (lines source)[bottom]? = some last) :
    lines (TextEdit.applyAll source (f.formatRange source ⟨top + 1, 1, bottom + 1, last.length + 1⟩)) =
      (lines source).take top ++
        lines (f.format (unlines (((lines source).take (bottom + 1)).drop top))).text ++
          (lines source).drop (bottom + 1) := by
  obtain ⟨above, inOrder, slice, below⟩ := TextRange.cut_lines ordered hlast
  rw [applyAll_formatRange f inOrder, above, slice, below,
    TextEdit.lines_append_below fun l hl => not_newline_of_mem_lines (List.mem_of_mem_drop hl),
    TextEdit.lines_above_append fun l hl => not_newline_of_mem_lines (List.mem_of_mem_take hl)]

/-- Formatting whole lines by an edit leaves the lines above and below alone and keeps the number of
lines, unless a newline at the end is asked for that the lines formatted by themselves lack: then
there is one line more. -/
theorem formatRange_keeps_lines_iff {s : FormatSettings} {plan : Plan} (hs : s.plan = .ok plan)
    (off : s.lineLimit.IsOff) {source last : Text} (unmarked : Literal.mark ∉ source)
    (noReturn : '\r' ∉ source) {i j : Nat} (hi : 1 ≤ i) (hij : i ≤ j)
    (hlast : (lines source)[j - 1]? = some last) :
    let edited := TextEdit.applyAll source
      (formatRange { plan := plan } source ⟨i, 1, j, last.length + 1⟩)
    (∃ mid, lines edited = (lines source).take (i - 1) ++ mid ++ (lines source).drop j ∧
      (mid.length = j + 1 - i ∨ mid.length = j + 2 - i)) ∧
    ((lines edited).length = (lines source).length ↔ ¬s.OpensLine (j + 1 - i) last) := by
  obtain rfl := eq_planOf hs
  obtain ⟨top, rfl⟩ := Nat.exists_eq_add_of_le' hi
  obtain ⟨bottom, rfl⟩ := Nat.exists_eq_add_of_le' (hi.trans hij)
  rw [Nat.add_sub_cancel] at hlast
  rw [Int.natCast_succ, Int.natCast_succ, Nat.add_sub_cancel, Nat.add_sub_add_right]
  intro edited
  have ordered : top ≤ bottom := Nat.le_of_succ_le_succ hij
  have inside : bottom < (lines source).length := (List.getElem?_eq_some_iff.mp hlast).1
  have slice := (TextRange.cut_lines ordered hlast).2.2.1
  have split := lines_formatRange { plan := s.planOf } ordered hlast
  obtain ⟨present, closing⟩ := TextRange.lines_unlines_between ordered hlast
  have count : (((lines source).take (bottom + 1)).drop top).length = bottom + 1 - top := by
    rw [List.length_drop, List.length_take, Nat.min_eq_left inside]
  -- the slice is formatted as a text of its own
  have inSource {c : Char} (hc : c ∉ source) :
      c ∉ unlines (((lines source).take (bottom + 1)).drop top) := fun hm =>
    hc (List.mem_of_mem_take (List.mem_of_mem_drop (slice ▸ hm)))
  have sized := length_lines_format off (inSource unmarked) (inSource noReturn) (present ▸ closing)
  rw [present, count] at sized
  have total := congrArg List.length split
  rw [List.length_append, List.length_append, List.length_take, List.length_drop] at total
  refine ⟨⟨_, split, sized.imp And.left fun more => more.1.trans (by omega)⟩, ?_⟩
  rcases sized with ⟨same, closed⟩ | ⟨more, opens⟩
  · exact iff_of_true (total.trans (by omega)) closed
  · refine iff_of_false (fun kept => ?_) (not_not_intro opens)
    have grown := total.symm.trans kept
    omega

/-- The second line gets an empty one behind it, and none where no newline is asked for. -/
theorem formatRange_keeps_lines_second :
    let source := "a=1\nb=2\nc=3".toList
    let edited (closing : Bool) := TextEdit.applyAll source (formatRange
      { plan := FormatOptions.plan { maxLineLength := 0, insertFinalNewline := closing } } source ⟨2, 1, 2, 4⟩)
    (lines (edited true)).length ≠ (lines source).length ∧
      (lines (edited false)).length = (lines source).length := by
  intro source edited
  have kept (closing : Bool) := (@formatRange_keeps_lines_iff _ _
    (FormatSettings.plan_ofOptions { maxLineLength := 0, insertFinalNewline := closing })
    (Int.le_refl 0) source "b=2".toList (by decide) (by decide) 2 2 (by decide) (by decide) rfl).2
  refine ⟨fun same => (kept true).mp same ⟨rfl, ⟨_, indentUnit_ofOptions _⟩, ?_⟩,
    (kept false).mpr fun opens => ?_⟩
  · exact fun several => absurd several (by decide)
  · cases opens.1

end Formatter
end MotionExpr
