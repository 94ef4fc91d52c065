import MotionExpr.Proofs.Format.Edits
import MotionExpr.Proofs.Format.Indented
import MotionExpr.Proofs.Format.Outcome

/-!
Formatting on typing against formatting the whole text. The passes after indentation
go line by line and do not see the indentation, so a line alone comes out as it does
among the others. What indentation the line has differs, and so do the passes that
change the number of lines: the line length, which is taken to be off, and the newline
at the end, which formatting on typing leaves out.
-/

namespace MotionExpr

open Text

namespace Text

/-- All blanks are spaces, tabs and newlines. -/
def PlainBlanks (t : Text) : Prop :=
  ∀ c ∈ t, isBlank c = true → isSpaceOrTab c = true ∨ c = '\n'

theorem PlainBlanks.spaced {t l : Text} (h : PlainBlanks t) (hl : l ∈ lines t) : Spaced l := by
  intro c hc hblank
  refine (h c (mem_of_mem_lines hl hc) hblank).resolve_right ?_
  rintro rfl
  exact not_newline_of_mem_lines hl hc

theorem Spaced.plainBlanks {t : Text} (h : Spaced t) : PlainBlanks t :=
  fun c hc hblank => .inl (h c hc hblank)

theorem compact_trim {t : Text} (h : Spaced t) : Compact (trim t) := by
  refine compact_dropEndWhile ⟨h.subset fun _ hc => (List.dropWhile_sublist _).subset hc, ?_⟩
  exact unindented_trimStart t

end Text

namespace LineEnd

theorem lines_trim_plain {t : Text} (h : PlainBlanks t) :
    lines (trim t) = (lines t).map trimEnd := by
  rw [lines_trim]
  apply List.map_congr_left
  intro l hl
  apply dropEndWhile_congr
  intro c hc
  cases hblank : isBlank c with
  | true =>
      have plain := h.spaced hl c hc hblank
      rw [isTrailing, ← isSpaceOrTab, plain, Bool.true_or, Bool.true_or]
  | false =>
      rw [← Bool.not_eq_true]
      intro trailing
      rw [isBlank_of_isTrailing trailing] at hblank
      cases hblank

theorem getElem?_lines_close {t l : Text} {row : Nat} (h : (lines t)[row]? = some l) :
    (lines (close t))[row]? = some l := by
  rw [close]
  split
  · exact h
  · rw [lines_newline, List.getElem?_append_left (List.getElem?_eq_some_iff.mp h).1]
    exact h

/-- The newline at the end brings an empty line at most. -/
theorem of_getElem?_lines_close {t l : Text} {row : Nat} (h : (lines (close t))[row]? = some l) :
    (lines t)[row]? = some l ∨ l = [] := by
  rw [close] at h
  split at h
  · exact .inl h
  · rw [lines_newline] at h
    by_cases inside : row < (lines t).length
    · rw [List.getElem?_append_left inside] at h
      exact .inl h
    · rw [List.getElem?_append_right (by omega)] at h
      exact .inr (List.mem_singleton.mp (List.mem_of_getElem? h))

end LineEnd

namespace Indentation

/-- Indentation puts lines whose ends are trimmed in rows. -/
theorem rows_apply {unit : IndentUnit} (hu : isSpaceOrTab unit.char = true) {t : Text}
    (h : PlainBlanks t) :
    ∃ rows : List Row, apply unit (LineEnd.trim t) = Row.join rows ∧
      rows.map Row.body = (lines t).map Text.trim ∧ ∀ r ∈ rows, r.Fits Compact := by
  obtain ⟨rows, hrows, bodies, aligned⟩ := @exists_aligned unit {} ((lines t).map trimEnd)
  rw [List.map_map, show trimStart ∘ trimEnd = Text.trim from funext trimStart_trimEnd] at bodies
  refine ⟨rows, by rw [apply, LineEnd.lines_trim_plain h, hrows, Row.join], bodies, fun r hr => ?_⟩
  have blank := aligned.blank hu r hr
  obtain ⟨l, hl, body⟩ := List.mem_map.mp (bodies ▸ List.mem_map_of_mem (f := Row.body) hr)
  refine ⟨fun c hc => isBlank_of_isSpaceOrTab (blank c hc), fun hc => ?_, ?_⟩
  · exact absurd (blank _ hc) (by decide)
  · exact body ▸ compact_trim (h.spaced hl)

end Indentation

/-! The passes in three parts. -/

namespace Pass

/-- The passes that settle the ends of lines and the indentation. -/
def front : List Pass := [lineEndings, trailingBlanks, indentation]

/-- The passes that go line by line. -/
def byLine : List Pass := [brackets, calls, operators, commas, semicolons, quotes]

theorem all_eq : all = (front ++ byLine) ++ [lineLength, finalNewline] := rfl

end Pass

namespace Formatter

theorem runPasses_congr {plan plan' : Plan} {ps : List Pass} (h : ∀ p ∈ ps, plan p = plan' p)
    (t : Text) : runPasses plan ps t = runPasses plan' ps t := by
  induction ps generalizing t with
  | nil => rfl
  | cons p ps ih =>
      obtain ⟨here, rest⟩ := List.forall_mem_cons.mp h
      rw [runPasses, runPasses, here]
      cases plan' p with
      | none => exact ih rest t
      | some f =>
          dsimp only
          cases f t with
          | error fault => rfl
          | ok u => exact ih rest u

end Formatter

namespace FormatSettings

open Formatter

/-- No line is long enough for the limit to cut it. -/
def LineLimit.IsOff : LineLimit → Prop
  | .columns n => n ≤ 0
  | .measure x => ¬ 0 < x
  | .notNumber _ => False

theorem lineLength_eq_none_iff {s : FormatSettings} : s.lineLength = none ↔ s.lineLimit.IsOff := by
  rw [lineLength]
  cases s.lineLimit with
  | columns n => simp [LineLimit.IsOff]
  | measure x => simp [LineLimit.IsOff]
  | notNumber typeName => simp [LineLimit.IsOff]

theorem eq_planOf {s : FormatSettings} {plan : Plan} (h : s.plan = .ok plan) : s.planOf = plan := by
  obtain ⟨_, -, rfl⟩ := map_eq_ok_iff.mp h
  rfl

variable {s : FormatSettings}

theorem runsByLine (s : FormatSettings) : RunsByLine Compact s.planOf s.regular Pass.byLine := by
  intro p hp
  have regular : s.planOf p = s.regular.plan p ∧ ∃ f, p.onLine? s.regular = some f := by
    simp only [Pass.byLine, List.mem_cons, List.not_mem_nil, or_false] at hp
    rcases hp with rfl | rfl | rfl | rfl | rfl | rfl <;> exact ⟨rfl, _, rfl⟩
  obtain ⟨f, hf⟩ := regular.2
  exact ⟨regular.1, f, hf, Pass.actsOnCompact hf⟩

theorem indentUnit_of_run {ps : List Pass} {t u : Text}
    (h : runPasses s.planOf (Pass.front ++ ps) t = .ok u) : ∃ unit, s.indentUnit = .ok unit := by
  cases hunit : s.indentUnit with
  | ok unit => exact ⟨unit, rfl⟩
  | error fault =>
      rw [runPasses_append] at h
      obtain ⟨v, h, -⟩ := h
      simp only [Pass.front, runPasses_cons_ok] at h
      obtain ⟨a, -, b, -, c, hc, -⟩ := h
      simp only [planOf, indentation, hunit] at hc
      cases hc

theorem runPasses_front_eq {unit : IndentUnit} (hunit : s.indentUnit = .ok unit) (t : Text) :
    runPasses s.planOf Pass.front t = .ok (Indentation.apply unit
      (if s.trimTrailingWhitespace.isTruthy then LineEnd.trim (LineEnd.unify t)
        else LineEnd.unify t)) := by
  have ends : s.planOf .lineEndings = some fun t => .ok (LineEnd.unify t) := rfl
  have blanks : s.planOf .trailingBlanks =
    if s.trimTrailingWhitespace.isTruthy then some fun t => .ok (LineEnd.trim t) else none := rfl
  have indents : s.planOf .indentation = some fun t => .ok (Indentation.apply unit t) := by
    rw [planOf, indentation, hunit]
  split
  · next trimming =>
      rw [if_pos trimming] at blanks
      simp only [Pass.front, runPasses, ends, blanks, indents]
  · next untrimmed =>
      rw [if_neg untrimmed] at blanks
      simp only [Pass.front, runPasses, ends, blanks, indents]

/-- The lines whose ends are settled, in rows. -/
theorem exists_rows_of_front {unit : IndentUnit} (hunit : s.indentUnit = .ok unit) (t : Text) :
    ∃ rows : List Row, rows ≠ [] ∧ Indentation.Aligned unit {} rows ∧
      runPasses s.planOf Pass.front t = .ok (Row.join rows) ∧
      rows.map Row.body = (lines (if s.trimTrailingWhitespace.isTruthy then
        LineEnd.trim (LineEnd.unify t) else LineEnd.unify t)).map trimStart := by
  obtain ⟨rows, made, bodies, aligned⟩ := @Indentation.exists_aligned unit {} (lines
    (if s.trimTrailingWhitespace.isTruthy then LineEnd.trim (LineEnd.unify t) else LineEnd.unify t))
  refine ⟨rows, ?_, aligned, ?_, bodies⟩
  · rintro rfl
    exact lines_ne_nil _ (List.map_eq_nil_iff.mp bodies.symm)
  · rw [runPasses_front_eq hunit, Indentation.apply, made, Row.join]

section Trimming

variable (trimming : s.trimTrailingWhitespace.isTruthy = true) {t : Text} (ht : PlainBlanks t)

include trimming ht

theorem runPasses_front {unit : IndentUnit} (hunit : s.indentUnit = .ok unit) :
    ∃ rows, rows ≠ [] ∧ runPasses s.planOf Pass.front t = .ok (Row.join rows) ∧
      rows.map Row.body = (lines t).map trim ∧ ∀ r ∈ rows, r.Fits Compact := by
  have noReturn : '\r' ∉ t := fun hm => absurd (ht _ hm rfl) (by decide)
  obtain ⟨rows, hrows, bodies, fits⟩ := Indentation.rows_apply (isSpaceOrTab_of_indentUnit hunit) ht
  refine ⟨rows, ?_, ?_, bodies, fits⟩
  · rintro rfl
    exact lines_ne_nil t (List.map_eq_nil_iff.mp bodies.symm)
  · rw [runPasses_front_eq hunit, if_pos trimming, LineEnd.unify_eq_self noReturn, hrows]

/-- A run up to the passes over lines makes of each line an indentation and what the passes
over lines make of the line alone. -/
theorem lines_of_run {u : Text} (h : runPasses s.planOf (Pass.front ++ Pass.byLine) t = .ok u) :
    List.Forall₂ (fun l m => ∃ indent c, (∀ d ∈ indent, isBlank d = true) ∧
      runPasses s.planOf Pass.byLine (trim l) = .ok c ∧ m = indent ++ c) (lines t) (lines u) := by
  obtain ⟨unit, hunit⟩ := indentUnit_of_run h
  obtain ⟨rows, nonempty, hrows, bodies, fits⟩ := runPasses_front trimming ht hunit
  obtain ⟨v, hv, hu⟩ := (runPasses_append ..).mp h
  obtain rfl : Row.join rows = v := Except.ok.inj (hrows.symm.trans hv)
  have noNewline (b : Text) (hb : Compact b) : '\n' ∉ b := hb.spaced.not_newline
  obtain ⟨rows', paired, rfl⟩ :=
    (runPasses_join_iff (runsByLine s) noNewline nonempty fits).mp hu
  have fits' : ∀ r ∈ rows', r.Fits Compact :=
    Row.fits_of_over (fun hb hc => keeps_of_run (runsByLine s) noNewline hb hc) fits paired
  have nonempty' : rows' ≠ [] := by
    rintro rfl
    exact nonempty (List.forall₂_nil_right_iff.mp paired)
  have related : List.Forall₂ (fun b (r : Row) => ∃ indent c, (∀ d ∈ indent, isBlank d = true) ∧
      runPasses s.planOf Pass.byLine b = .ok c ∧ r.text = indent ++ c) (rows.map Row.body) rows' := by
    rw [List.forall₂_map_left_iff]
    clear hv hrows hu h bodies nonempty nonempty' fits'
    induction paired with
    | nil => exact .nil
    | @cons r r' rs rs' hr _ ih =>
        obtain ⟨here, rest⟩ := List.forall_mem_cons.mp fits
        refine .cons ⟨r.indent, r'.body, here.blank, hr.2, ?_⟩ (ih rest)
        rw [Row.text, hr.1]
  rw [bodies, List.forall₂_map_left_iff] at related
  rw [Row.lines_join noNewline nonempty' fits', List.forall₂_map_right_iff]
  exact related

theorem run_of_lines {unit : IndentUnit} (hunit : s.indentUnit = .ok unit)
    (h : ∀ l ∈ lines t, ∃ c, runPasses s.planOf Pass.byLine (trim l) = .ok c) :
    ∃ u, runPasses s.planOf (Pass.front ++ Pass.byLine) t = .ok u := by
  obtain ⟨rows, nonempty, hrows, bodies, fits⟩ := runPasses_front trimming ht hunit
  have noNewline (b : Text) (hb : Compact b) : '\n' ∉ b := hb.spaced.not_newline
  have each : ∀ r ∈ rows, ∃ c, runPasses s.planOf Pass.byLine r.body = .ok c := by
    intro r hr
    obtain ⟨l, hl, heq⟩ := List.mem_map.mp (bodies ▸ List.mem_map_of_mem (f := Row.body) hr)
    rw [← heq]
    exact h l hl
  obtain ⟨rows', paired⟩ := Row.exists_over (fun b c => runPasses s.planOf Pass.byLine b = .ok c) each
  refine ⟨Row.join rows', (runPasses_append ..).mpr ⟨Row.join rows, hrows, ?_⟩⟩
  exact (runPasses_join_iff (runsByLine s) noNewline nonempty fits).mpr ⟨rows', paired, rfl⟩

omit ht in
/-- A line alone comes out behind some indentation. -/
theorem run_of_line {unit : IndentUnit} (hunit : s.indentUnit = .ok unit) {l c : Text}
    (hl : Spaced l) (hc : runPasses s.planOf Pass.byLine (trim l) = .ok c) :
    ∃ indent, (∀ d ∈ indent, isBlank d = true) ∧ '\n' ∉ indent ++ c ∧
      runPasses s.planOf (Pass.front ++ Pass.byLine) (trim l) = .ok (indent ++ c) := by
  have spaced := (compact_trim hl).spaced
  have only : lines (trim l) = [trim l] := lines_of_not_newline spaced.not_newline
  obtain ⟨w, hw⟩ := run_of_lines trimming spaced.plainBlanks hunit fun k hk => by
    rw [only, List.mem_singleton] at hk
    rw [hk, trim_trim]
    exact ⟨c, hc⟩
  have related := lines_of_run trimming spaced.plainBlanks hw
  generalize hws : lines w = ws at related
  rw [only] at related
  cases related with
  | cons hone none =>
      cases none
      obtain ⟨indent, c', hindent, hc', rfl⟩ := hone
      rw [trim_trim] at hc'
      obtain rfl : c = c' := Except.ok.inj (hc.symm.trans hc')
      obtain rfl : w = indent ++ c := by rw [← unlines_lines w, hws]; rfl
      exact ⟨indent, hindent, not_newline_of_mem_lines (hws ▸ List.mem_singleton_self _), hw⟩

end Trimming

/-- Without the newline at the end, what is left is wrapping. -/
theorem runPasses_open_iff {t u : Text} :
    runPasses (s.planOf.without .finalNewline) Pass.all t = .ok u ↔
      runPasses s.planOf ((Pass.front ++ Pass.byLine) ++ [.lineLength]) t = .ok u := by
  have open_ : s.planOf.without .finalNewline .finalNewline = none := rfl
  have same : ∀ p ∈ (Pass.front ++ Pass.byLine) ++ [.lineLength],
      s.planOf.without .finalNewline p = s.planOf p := by
    intro p hp
    rw [Plan.without, if_neg]
    rintro rfl
    exact absurd hp (by decide)
  have parts : Pass.all = ((Pass.front ++ Pass.byLine) ++ [.lineLength]) ++ [.finalNewline] := rfl
  rw [parts, runPasses_append]
  simp only [runPasses, open_, runPasses_congr same, Except.ok.injEq, exists_eq_right]

section Unwrapped

variable (off : s.lineLimit.IsOff)

include off

theorem runPasses_back (t : Text) :
    runPasses s.planOf [.lineLength, .finalNewline] t =
      .ok (if s.regular.insertFinalNewline then LineEnd.close t else t) := by
  have unwrapped : s.planOf .lineLength = none := lineLength_eq_none_iff.mpr off
  split
  · next closing =>
      have closes : s.planOf .finalNewline = some fun t => .ok (LineEnd.close t) := if_pos closing
      simp only [runPasses, unwrapped, closes]
  · next leaving =>
      have leaves : s.planOf .finalNewline = none := if_neg leaving
      simp only [runPasses, unwrapped, leaves]

theorem runPasses_all {t u : Text} (h : runPasses s.planOf Pass.all t = .ok u) :
    ∃ v, runPasses s.planOf (Pass.front ++ Pass.byLine) t = .ok v ∧
      ∀ (row : Nat) (l : Text), ((lines v)[row]? = some l → (lines u)[row]? = some l) ∧
        ((lines u)[row]? = some l → (lines v)[row]? = some l ∨ l = []) := by
  rw [Pass.all_eq, runPasses_append] at h
  obtain ⟨v, hv, hu⟩ := h
  refine ⟨v, hv, fun row l => ?_⟩
  rw [runPasses_back off] at hu
  cases hu
  split
  · exact ⟨LineEnd.getElem?_lines_close, LineEnd.of_getElem?_lines_close⟩
  · exact ⟨id, .inl⟩

theorem runPasses_withoutNewline_iff {t u : Text} :
    runPasses (s.planOf.without .finalNewline) Pass.all t = .ok u ↔
      runPasses s.planOf (Pass.front ++ Pass.byLine) t = .ok u := by
  have unwrapped : s.planOf .lineLength = none := lineLength_eq_none_iff.mpr off
  rw [runPasses_open_iff, runPasses_append]
  simp only [runPasses, unwrapped, Except.ok.injEq, exists_eq_right]

end Unwrapped

end FormatSettings

namespace Formatter

/-- Where formatting a line alone does not fail, its edit puts the result behind the
indentation of the line and leaves the other lines alone. -/
theorem lines_formatOnType (f : Formatter) {source typed : Text} (ht : isTrigger typed = true)
    {row : Nat} {line w : Text} (hline : (lines source)[row]? = some line)
    (hw : runPasses (f.plan.without .finalNewline) f.passes (trim line) = .ok w) (hn : '\n' ∉ w) :
    lines (TextEdit.applyAll source (f.formatOnType source (row + 1) typed)) =
      (lines source).set row ((splitIndent line).1 ++ w) := by
  obtain ⟨hrow, rfl⟩ := List.getElem?_eq_some_iff.mp hline
  have positive : (1 : Int) ≤ row + 1 := by omega
  have here : (lines source)[((row + 1 : Int) - 1).toNat]? = some (lines source)[row] := by
    rw [Int.add_sub_cancel, Int.toNat_natCast, hline]
  rw [formatOnType]
  simp only [ht, positive, decide_true, Bool.and_true, ite_true, here, formatWith, hw,
    Option.isSome_none, Bool.false_or]
  by_cases same : (splitIndent (lines source)[row]).1 ++ w = (lines source)[row]
  · rw [if_pos (by simpa using same), same, List.set_getElem_self]
    rfl
  · have split : lines source =
        (lines source).take row ++ (lines source)[row] :: (lines source).drop (row + 1) := by
      rw [List.getElem_cons_drop, List.take_append_drop]
    have length : ((lines source).take row).length = row := List.length_take_of_le (by omega)
    have noNewline : '\n' ∉ (splitIndent (lines source)[row]).1 ++ w := by
      rw [List.mem_append, not_or]
      refine ⟨fun hm => ?_, hn⟩
      exact not_newline_of_mem_lines (List.getElem_mem hrow) ((List.takeWhile_sublist _).subset hm)
    have edited := TextEdit.lines_apply_line split noNewline
    rw [length] at edited
    rw [if_neg (by simpa using same), TextEdit.applyAll, List.foldl_cons, List.foldl_nil,
      List.set_eq_take_append_cons_drop, if_pos hrow]
    exact edited

/-- With blanks trimmed and no line cut, a line formatted as one types it and the same line
of the whole text formatted differ in their indentation at most. -/
theorem format_agrees_on_typing {s : FormatSettings} {plan : Plan} (hs : s.plan = .ok plan)
    (trimming : s.trimTrailingWhitespace.isTruthy = true) (off : s.lineLimit.IsOff) {source : Text}
    (blanks : PlainBlanks source) (noError : (format { plan := plan } source).errors = [])
    {typed : Text} (ht : isTrigger typed = true) {row : Nat} {line : Text}
    (hline : (lines source)[row]? = some line) :
    ∃ whole alone, (lines (format { plan := plan } source).text)[row]? = some whole ∧
      (lines (TextEdit.applyAll source
        (formatOnType { plan := plan } source (row + 1) typed)))[row]? = some alone ∧
      trim whole = trim alone := by
  obtain rfl := FormatSettings.eq_planOf hs
  obtain ⟨u, hu⟩ := (errors_eq_nil_iff _ _).mp noError
  obtain ⟨v, hv, kept⟩ := FormatSettings.runPasses_all off hu
  obtain ⟨whole, hwhole, indent, c, hindent, hc, rfl⟩ := Line.getElem?_of_forall₂
    (FormatSettings.lines_of_run trimming blanks hv) hline
  obtain ⟨unit, hunit⟩ := FormatSettings.indentUnit_of_run hv
  obtain ⟨indent', hindent', hn, halone⟩ := FormatSettings.run_of_line trimming hunit
    (blanks.spaced (List.mem_of_getElem? hline)) hc
  have formatted : (format { plan := s.planOf } source).text = u := by
    rw [format, formatWith, hu]
  have edited := lines_formatOnType { plan := s.planOf } ht hline
    ((FormatSettings.runPasses_withoutNewline_iff off).mpr halone) hn
  refine ⟨indent ++ c, (splitIndent line).1 ++ (indent' ++ c), ?_, ?_, ?_⟩
  · rw [formatted]
    exact (kept row _).1 hwhole
  · rw [edited, List.getElem?_set_self (List.getElem?_eq_some_iff.mp hline).1]
  · have front : ∀ d ∈ (splitIndent line).1, isBlank d = true :=
      List.all_eq_true.mp List.all_takeWhile
    rw [trim_indented hindent, trim_indented front, trim_indented hindent']

/-- The line keeps its tab on typing, and has two spaces in the whole text. -/
theorem format_agrees_on_typing_call :
    let source := "if (a)\n\tf ( 1,2 )".toList
    ∃ whole alone,
      (lines (format { plan := FormatOptions.plan { maxLineLength := 0 } } source).text)[1]? =
          some whole ∧
        (lines (TextEdit.applyAll source (formatOnType
          { plan := FormatOptions.plan { maxLineLength := 0 } } source 2 [')'])))[1]? =
            some alone ∧
        trim whole = trim alone :=
  format_agrees_on_typing (FormatSettings.plan_ofOptions { maxLineLength := 0 }) rfl
    (Int.le_refl 0) (by simp [PlainBlanks]; decide) (by decide) rfl rfl

end Formatter
end MotionExpr
