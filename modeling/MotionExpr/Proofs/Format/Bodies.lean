import MotionExpr.Proofs.Format.LineEnds
import MotionExpr.Proofs.Format.OnType
import MotionExpr.Proofs.Format.Reindented

/-!
Lines as the passes up to those over lines leave them, for all texts and whatever blanks they
have: one row for each line, with a body that begins with a character that shows. Such a pass
leaves a body without blanks in front, and empties none and fills none.
-/

namespace MotionExpr

open Text Literal

/-- What stands behind an indentation. -/
structure Text.IsBody (b : Text) : Prop where
  onLine : '\n' ∉ b
  front : Unindented b

theorem Text.isBody_nil : IsBody [] := ⟨List.not_mem_nil, unindented_nil⟩

theorem Text.isBody_cons {c : Char} {r : Text} (onLine : '\n' ∉ c :: r)
    (ink : isBlank c = false) : IsBody (c :: r) :=
  ⟨onLine, unindented_cons.mpr ink⟩

/-! One body. -/

namespace Line

theorem isBody_mapCode {f : Text → Text} (keeps : KeepsEnd f) {b u : Text} (h : IsBody b)
    (hu : mapCode f b = .ok u) : IsBody u ∧ (u = [] ↔ b = []) := by
  have onLine : '\n' ∉ u := fun hm => h.onLine (mem_of_mapCode keeps hu (by decide) (by decide) hm)
  rw [mapCode, splitIndent_unindented h.front] at hu
  dsimp only at hu
  split at hu
  · cases hu
    exact ⟨h, Iff.rfl⟩
  · next full =>
      have some : b ≠ [] := fun none => full (List.isEmpty_iff.mpr none)
      obtain ⟨v, hv, rfl⟩ := map_eq_ok_iff.mp hu
      obtain ⟨c, r, first, ink⟩ := head_tidy keeps h.front some
      rw [first] at hv
      obtain ⟨d, s, rfl, hd⟩ := head_of_restore (fun _ => head_of_mem_literals) ink hv
      exact ⟨isBody_cons onLine hd, iff_of_false (List.cons_ne_nil d s) some⟩

end Line

namespace Semicolon

theorem isBody_terminateLine {b u : Text} (h : IsBody b) (hu : terminateLine b = .ok u) :
    IsBody u ∧ (u = [] ↔ b = []) := by
  have onLine : '\n' ∉ u := fun hm => h.onLine (mem_of_terminateLine hu (by decide) hm)
  by_cases some : b = []
  · subst some
    cases hu
    exact ⟨h, Iff.rfl⟩
  · obtain rfl | ⟨code, rest, restored, masked, hr, rfl⟩ := of_terminateLine hu
    · exact ⟨h, Iff.rfl⟩
    · rw [splitIndent_unindented h.front] at masked hr onLine ⊢
      have trimmed : Unindented (trimEnd b) := by
        have whole := h.front
        rw [← dropEndWhile_append_takeEndWhile isBlank b] at whole
        exact whole.of_append
      have front : Unindented (code ++ rest) := masked ▸ Literal.unindented_mask trimmed
      obtain ⟨c, r, first, ink⟩ : ∃ c r, code ++ ';' :: rest = c :: r ∧ isBlank c = false := by
        cases code with
        | nil => exact ⟨';', rest, rfl, by decide⟩
        | cons c code => exact ⟨c, code ++ ';' :: rest, rfl, unindented_cons.mp front⟩
      obtain ⟨d, s, rfl, hd⟩ := head_of_restore (fun _ => head_of_mem_literals) ink (first ▸ hr)
      exact ⟨isBody_cons onLine hd, iff_of_false (List.cons_ne_nil _ _) some⟩

end Semicolon

namespace Quote

theorem isBody_restyle (style : QuoteStyle) {b : Text} (h : IsBody b) :
    IsBody (restyle style b) ∧ (restyle style b = [] ↔ b = []) := by
  have same := map_plainQuote_restyle style b
  have onLine : '\n' ∉ restyle style b := not_newline_mem_restyle h.onLine
  cases b with
  | nil => exact ⟨isBody_nil, Iff.rfl⟩
  | cons d s =>
      cases hu : restyle style (d :: s) with
      | nil =>
          rw [hu] at same
          cases same
      | cons c r =>
          rw [hu] at same onLine
          have first : plainQuote c = plainQuote d := (List.cons_eq_cons.mp same).1
          have ink : isBlank c = false := by
            rw [← isBlank_plainQuote, first, isBlank_plainQuote]
            exact unindented_cons.mp h.front
          exact ⟨isBody_cons onLine ink, iff_of_false (List.cons_ne_nil c r) (List.cons_ne_nil d s)⟩

end Quote

theorem Pass.isBody_onLine {o : FormatOptions} {p : Pass} {f : Text → Except Literal.Fault Text}
    (hf : p.onLine? o = some f) {b u : Text} (h : IsBody b) (hu : f b = .ok u) :
    IsBody u ∧ (u = [] ↔ b = []) := by
  cases p with
  | brackets => cases hf; exact Line.isBody_mapCode Bracket.keepsEnd_space h hu
  | calls => cases hf; exact Line.isBody_mapCode Call.keepsEnd_tighten h hu
  | operators => cases hf; exact Line.isBody_mapCode Operator.keepsEnd_space h hu
  | commas => cases hf; exact Line.isBody_mapCode Comma.keepsEnd_space h hu
  | semicolons => cases hf; exact Semicolon.isBody_terminateLine h hu
  | quotes => cases hf; cases hu; exact Quote.isBody_restyle o.quoteStyle h
  | _ => cases hf

/-! All rows. -/

/-- A body that is empty just if another is. -/
def Text.FillsAlike (b u : Text) : Prop := IsBody u ∧ (u = [] ↔ b = [])

theorem Row.isEmpty_bodies {rows rows' : List Row} (h : List.Forall₂ (Over FillsAlike) rows rows') :
    (rows'.map fun r => r.body.isEmpty) = rows.map fun r => r.body.isEmpty := by
  induction h with
  | nil => rfl
  | cons pair _ ih =>
      rw [List.map_cons, List.map_cons, ih, Bool.eq_iff_iff.mpr
        (List.isEmpty_iff.trans (pair.2.2.trans List.isEmpty_iff.symm))]

/-- Nothing is left of the line but blanks. -/
def Text.isBare (l : Text) : Bool := (trimStart l).isEmpty

theorem Text.isBare_iff {l : Text} : isBare l = true ↔ ∀ c ∈ l, isBlank c = true := by
  rw [isBare, List.isEmpty_iff, trimStart, List.dropWhile_eq_nil_iff]

theorem LineEnd.isBare_trimmed (l : Text) : isBare (dropEndWhile isTrailing l) = isBare l := by
  rw [Bool.eq_iff_iff, isBare_iff, isBare_iff]
  refine ⟨fun h c hc => ?_, fun h c hc => h c ((isPrefix_dropEndWhile _ _).mem hc)⟩
  rw [← dropEndWhile_append_takeEndWhile isTrailing l, List.mem_append] at hc
  rcases hc with hc | hc
  · exact h c hc
  · exact isBlank_of_isTrailing (mem_takeEndWhile hc)

/-- The first line stands at the margin. -/
theorem Indentation.Aligned.margin {unit : IndentUnit} {rows : List Row}
    (h : Aligned unit {} rows) : ∀ r ∈ rows.head?, r.indent = [] := by
  cases rows with
  | nil => exact fun r hr => absurd hr (Option.not_mem_none r)
  | cons first rows =>
      rintro r ⟨⟩
      obtain ⟨-, rest⟩ := h
      split at rest
      · exact rest.1
      · rw [rest.1, step, Nat.zero_sub, ite_self, Bool.false_and, if_neg (by decide),
          IndentUnit.atLevel, Nat.zero_mul, List.replicate_zero]

namespace FormatSettings

open Formatter Indentation

variable {s : FormatSettings}

/-- The passes over lines, on bodies of which `P` says what each of them keeps. -/
theorem runsByLine_of {P : Text → Prop} (body : ∀ b, P b → IsBody b)
    (keeps : ∀ {b u}, P b → IsBody u → (u = [] ↔ b = []) → P u) :
    RunsByLine P s.planOf s.regular Pass.byLine := by
  intro p hp
  obtain ⟨same, f, hf, -⟩ := runsByLine s p hp
  refine ⟨same, f, hf, fun hi hb => p.indented_of_onLine? hf hi (body _ hb).front, fun hb hu => ?_⟩
  obtain ⟨made, fills⟩ := Pass.isBody_onLine hf (body _ hb) hu
  exact keeps hb made fills

theorem runsByLine_isBody (s : FormatSettings) : RunsByLine IsBody s.planOf s.regular Pass.byLine :=
  runsByLine_of (fun _ => id) fun _ made _ => made

theorem fillsAlike_of_run {b u : Text} (h : IsBody b)
    (run : runPasses s.planOf Pass.byLine b = .ok u) : FillsAlike b u :=
  keeps_of_run (runsByLine_of (fun _ => And.left) fun hb made fills => ⟨made, fills.trans hb.2⟩)
    (fun _ hb => hb.1.onLine) ⟨h, Iff.rfl⟩ run

theorem bare_of_front (s : FormatSettings) (t : Text) :
    (lines (if s.trimTrailingWhitespace.isTruthy then LineEnd.trim (LineEnd.unify t)
      else LineEnd.unify t)).map isBare = (lines (LineEnd.unify t)).map isBare := by
  split
  · rw [LineEnd.lines_trim, List.map_map]
    exact List.map_congr_left fun l _ => LineEnd.isBare_trimmed l
  · rfl

/-- The passes over lines keep rows in rows. -/
theorem exists_rows_of_byLine {rows : List Row} (nonempty : rows ≠ [])
    (fits : ∀ r ∈ rows, r.Fits IsBody) {v : Text}
    (run : runPasses s.planOf Pass.byLine (Row.join rows) = .ok v) :
    ∃ rows', List.Forall₂ (Row.Over FillsAlike) rows rows' ∧ (∀ r ∈ rows', r.Fits IsBody) ∧
      lines v = rows'.map Row.text := by
  obtain ⟨rows', paired, rfl⟩ :=
    (runPasses_join_iff (runsByLine_isBody s) (fun _ => IsBody.onLine) nonempty fits).mp run
  have related : List.Forall₂ (Row.Over FillsAlike) rows rows' :=
    ((List.forall₂_and_left _ _).mpr ⟨fits, paired⟩).imp
      fun _ _ pair => ⟨pair.2.1, fillsAlike_of_run pair.1.body pair.2.2⟩
  have fits' : ∀ r ∈ rows', r.Fits IsBody := Row.fits_of_over (fun _ made => made.1) fits related
  have nonempty' : rows' ≠ [] := by
    rintro rfl
    exact nonempty (List.forall₂_nil_right_iff.mp paired)
  exact ⟨rows', related, fits', Row.lines_join (fun _ => IsBody.onLine) nonempty' fits'⟩

/-- Behind the passes over lines there is one row for each line of the source: an indentation, which
the first line and blank lines lack, and a body. -/
theorem exists_rows {t v : Text} (h : runPasses s.planOf (Pass.front ++ Pass.byLine) t = .ok v) :
    ∃ unit, ∃ rows : List Row, s.indentUnit = .ok unit ∧ lines v = rows.map Row.text ∧
      rows.map (fun r => r.body.isEmpty) = (lines (LineEnd.unify t)).map isBare ∧
      (∀ r ∈ rows, r.Fits IsBody ∧ (∃ n, r.indent = unit.atLevel n) ∧ (r.body = [] → r.indent = [])) ∧
      ∀ r ∈ rows.head?, r.indent = [] := by
  obtain ⟨unit, hunit⟩ := indentUnit_of_run h
  obtain ⟨rows, nonempty, aligned, made, trimmed⟩ := exists_rows_of_front hunit t
  have bare : rows.map (fun r => r.body.isEmpty) = (lines (LineEnd.unify t)).map isBare := by
    have each := congrArg (List.map List.isEmpty) trimmed
    rw [List.map_map, List.map_map] at each
    exact each.trans (bare_of_front s t)
  have blank := aligned.blank (isSpaceOrTab_of_indentUnit hunit)
  have fits : ∀ r ∈ rows, r.Fits IsBody := fun r hr => by
    obtain ⟨l, hl, body⟩ := List.mem_map.mp (trimmed ▸ List.mem_map_of_mem (f := Row.body) hr)
    refine ⟨fun c hc => isBlank_of_isSpaceOrTab (blank r hr c hc),
      fun hm => absurd (blank r hr _ hm) (by decide), fun hm => ?_, aligned.front r hr⟩
    exact not_newline_of_mem_lines hl ((List.dropWhile_sublist _).subset (body ▸ hm))
  obtain ⟨u, hu, hv⟩ := (runPasses_append ..).mp h
  obtain rfl : Row.join rows = u := Except.ok.inj (made.symm.trans hu)
  obtain ⟨rows', related, fits', hlines⟩ := exists_rows_of_byLine nonempty fits hv
  refine ⟨unit, rows', hunit, hlines, (Row.isEmpty_bodies related).trans bare, fun r' hr' => ?_, ?_⟩
  · obtain ⟨r, hr, indent, filled⟩ := Row.exists_of_over related hr'
    rw [indent]
    exact ⟨fits' r' hr', aligned.level r hr, fun empty => aligned.bare r hr (filled.2.mp empty)⟩
  · have first := aligned.margin
    cases related with
    | nil => exact absurd rfl nonempty
    | cons pair _ =>
        rintro r ⟨⟩
        rw [pair.1]
        exact first _ rfl

end FormatSettings
end MotionExpr
