import MotionExpr.Proofs.Format.Settling

/-!
Formatting a text twice, with the limit on line length off. Where every line is steady, the
second run finds the ends of lines clean, the indentation as it makes it and every body settled.
Lines that are not steady come out different at times: the swap of quotes reads over a quote of
the other kind, so it may put code where a string was, and the next run spaces that code.
-/

namespace MotionExpr

open Text

namespace Indentation

variable {unit : IndentUnit}

/-- Bodies that indentation cannot tell apart are aligned alike. -/
theorem Aligned.of_alike {s : State} {rows rows' : List Row}
    (related : List.Forall₂ (Row.Over fun b e => Alike b e ∧ Unindented e) rows rows')
    (h : Aligned unit s rows) : Aligned unit s rows' := by
  induction related generalizing s with
  | nil => trivial
  | cons pair _ ih =>
      obtain ⟨indent, alike, front⟩ := pair
      obtain ⟨-, rest⟩ := h
      refine ⟨front, ?_⟩
      rw [alike.empty] at rest
      split
      · next empty =>
          rw [if_pos empty] at rest
          exact ⟨indent.trans rest.1, ih rest.2⟩
      · next full =>
          rw [if_neg full, step_congr alike.sight] at rest
          exact ⟨indent.trans rest.1, ih rest.2⟩

end Indentation

namespace LineEnd

theorem Clean.append {a b : Text} (h : Clean b) (empty : b = [] → a = []) : Clean (a ++ b) := by
  by_cases hb : b = []
  · rw [empty hb, hb]
    rfl
  · rw [Clean, List.getLast?_append_of_ne_nil _ hb]
    exact h

theorem Clean.of_append {a b : Text} (h : Clean (a ++ b)) : Clean b := by
  by_cases hb : b = []
  · rw [hb]
    rfl
  · rw [Clean, List.getLast?_append_of_ne_nil _ hb] at h
    exact h

end LineEnd

namespace FormatSettings

open Formatter Indentation

/-- Rows that the passes in front of those over lines make, and leave alone. -/
structure Laid (s : FormatSettings) (unit : IndentUnit) (rows : List Row) : Prop where
  nonempty : rows ≠ []
  aligned : Aligned unit {} rows
  inLine : ∀ r ∈ rows, '\n' ∉ r.body ∧ '\r' ∉ r.body
  clean : s.trimTrailingWhitespace.isTruthy = true → ∀ r ∈ rows, LineEnd.Clean r.body

variable {s : FormatSettings} {unit : IndentUnit} (hunit : s.indentUnit = .ok unit)

include hunit

theorem exists_laid (t : Text) :
    ∃ rows, Laid s unit rows ∧ runPasses s.planOf Pass.front t = .ok (Row.join rows) := by
  obtain ⟨rows, nonempty, aligned, run, bodies⟩ := exists_rows_of_front hunit t
  generalize settled : (if s.trimTrailingWhitespace.isTruthy then LineEnd.trim (LineEnd.unify t)
    else LineEnd.unify t) = u at bodies
  have line (r : Row) (hr : r ∈ rows) : ∃ l ∈ lines u, trimStart l = r.body :=
    List.mem_map.mp (bodies ▸ List.mem_map_of_mem (f := Row.body) hr)
  have noReturn : '\r' ∉ u := by
    have unified := LineEnd.not_return_unify t
    rw [← settled]
    split
    · refine not_return_unlines fun l hl hm => unified ?_
      obtain ⟨k, hk, rfl⟩ := List.mem_map.mp hl
      exact mem_of_mem_lines hk ((isPrefix_dropEndWhile _ _).mem hm)
    · exact unified
  refine ⟨rows, ⟨nonempty, aligned, fun r hr => ?_, fun on r hr => ?_⟩, run⟩
  · obtain ⟨l, hl, body⟩ := line r hr
    have inside (c : Char) (hc : c ∈ r.body) : c ∈ l :=
      (List.dropWhile_sublist _).subset (body.symm ▸ hc)
    exact ⟨fun hm => not_newline_of_mem_lines hl (inside _ hm),
      fun hm => noReturn (mem_of_mem_lines hl (inside _ hm))⟩
  · obtain ⟨l, hl, body⟩ := line r hr
    have whole : LineEnd.Clean l := by
      rw [← settled, if_pos on, LineEnd.lines_trim] at hl
      obtain ⟨k, -, rfl⟩ := List.mem_map.mp hl
      exact any_getLast?_dropEndWhile _ k
    rw [← List.takeWhile_append_dropWhile (p := isBlank) (l := l)] at whole
    exact body ▸ whole.of_append

/-- Neither indentation nor bodies have other characters that end a line. -/
theorem Laid.outside {rows : List Row} (h : Laid s unit rows) {c : Char} (hc : isSpaceOrTab c = false)
    (hbody : ∀ r ∈ rows, c ∉ r.body) : ∀ l ∈ rows.map Row.text, c ∉ l := by
  intro l hl
  obtain ⟨r, hr, rfl⟩ := List.mem_map.mp hl
  rw [Row.text, List.mem_append, not_or]
  refine ⟨fun hm => ?_, hbody r hr⟩
  rw [h.aligned.blank (isSpaceOrTab_of_indentUnit hunit) r hr c hm] at hc
  cases hc

theorem Laid.lines_join {rows : List Row} (h : Laid s unit rows) :
    lines (Row.join rows) = rows.map Row.text :=
  lines_unlines (by simpa using h.nonempty) (h.outside hunit rfl fun r hr => (h.inLine r hr).1)

/-- A second time the lines are what they are. -/
theorem Laid.again {rows : List Row} (h : Laid s unit rows) :
    runPasses s.planOf Pass.front (Row.join rows) = .ok (Row.join rows) := by
  have noReturn : '\r' ∉ Row.join rows :=
    not_return_unlines (h.outside hunit rfl fun r hr => (h.inLine r hr).2)
  have split := h.lines_join hunit
  have trimmed (trimming : s.trimTrailingWhitespace.isTruthy = true) :
      LineEnd.trim (Row.join rows) = Row.join rows := by
    rw [LineEnd.trim, split, List.map_congr_left (g := id), List.map_id, Row.join]
    intro l hl
    obtain ⟨r, hr, rfl⟩ := List.mem_map.mp hl
    exact dropEndWhile_of_getLast? ((h.clean trimming r hr).append (h.aligned.bare r hr))
  have indented : Indentation.apply unit (Row.join rows) = Row.join rows := by
    rw [Indentation.apply, split, h.aligned.indentFrom (isSpaceOrTab_of_indentUnit hunit), Row.join]
  rw [runPasses_front_eq hunit, LineEnd.unify_eq_self noReturn, ite_eq_right_iff.mpr trimmed, indented]

omit hunit

theorem Laid.of_alike {rows rows' : List Row} (h : Laid s unit rows)
    (related : List.Forall₂ (Row.Over fun b e => Alike b e ∧ Unindented e ∧ ('\n' ∉ e ∧ '\r' ∉ e) ∧
      (LineEnd.Clean b → LineEnd.Clean e)) rows rows') : Laid s unit rows' where
  nonempty := by
    rintro rfl
    exact h.nonempty (List.forall₂_nil_right_iff.mp related)
  aligned := h.aligned.of_alike (related.imp fun _ _ pair => ⟨pair.1, pair.2.1, pair.2.2.1⟩)
  inLine r' hr' := by
    obtain ⟨r, -, pair⟩ := Row.exists_of_over related hr'
    exact pair.2.2.2.1
  clean on r' hr' := by
    obtain ⟨r, hr, pair⟩ := Row.exists_of_over related hr'
    exact pair.2.2.2.2 (h.clean on r hr)

theorem Laid.concat {rows : List Row} (h : Laid s unit rows) : Laid s unit (rows ++ [⟨[], []⟩]) where
  nonempty := List.append_ne_nil_of_right_ne_nil _ (List.cons_ne_nil _ _)
  aligned := h.aligned.concat
  inLine := List.forall_mem_append.mpr
    ⟨h.inLine, List.forall_mem_singleton.mpr ⟨List.not_mem_nil, List.not_mem_nil⟩⟩
  clean on := List.forall_mem_append.mpr ⟨h.clean on, List.forall_mem_singleton.mpr rfl⟩

/-- The newline at the end is added once. -/
theorem exists_closed (off : s.lineLimit.IsOff) {rows : List Row} (h : Laid s unit rows) :
    ∃ rows', (rows' = rows ∨ rows' = rows ++ [⟨[], []⟩]) ∧
      runPasses s.planOf [.lineLength, .finalNewline] (Row.join rows) = .ok (Row.join rows') ∧
      runPasses s.planOf [.lineLength, .finalNewline] (Row.join rows') = .ok (Row.join rows') := by
  simp only [runPasses_back off]
  split
  · by_cases closed : (Row.join rows).getLast? = some '\n'
    · have same : LineEnd.close (Row.join rows) = Row.join rows := by rw [LineEnd.close, if_pos closed]
      exact ⟨rows, .inl rfl, by rw [same], by rw [same]⟩
    · have made : LineEnd.close (Row.join rows) = Row.join (rows ++ [⟨[], []⟩]) := by
        rw [LineEnd.close, if_neg closed, Row.join_concat h.nonempty]
      have same : LineEnd.close (Row.join (rows ++ [⟨[], []⟩])) = Row.join (rows ++ [⟨[], []⟩]) := by
        rw [Row.join_concat h.nonempty, LineEnd.close, if_pos List.getLast?_concat]
      exact ⟨_, .inr rfl, by rw [made], by rw [same]⟩
  · exact ⟨rows, .inl rfl, rfl, rfl⟩

theorem runPasses_byLine (ps : List Pass) (h : ∀ p ∈ ps, p ∈ Pass.byLine) (t : Text) :
    runPasses s.planOf ps t = runPasses s.regular.plan ps t :=
  runPasses_congr (fun p hp => (s.runsByLine p (h p hp)).1) t

/-- The passes over lines find settled rows as they leave them. -/
theorem runPasses_settled {rows rows' : List Row} (hunit : s.indentUnit = .ok unit)
    (h : Laid s unit rows) (related : List.Forall₂ (Row.Over (Settles s.regular)) rows rows') :
    runPasses s.planOf Pass.byLine (Row.join rows) = .ok (Row.join rows') := by
  have blank := h.aligned.blank (isSpaceOrTab_of_indentUnit hunit)
  rw [runPasses_byLine _ fun _ hp => hp]
  refine runPasses_byLine_rows h.nonempty (fun r hr => ⟨fun c hc => ?_, fun hm => ?_, trivial⟩) related
  · exact isBlank_of_isSpaceOrTab (blank r hr c hc)
  · exact absurd (blank r hr _ hm) (by decide)

theorem settles_nil (o : FormatOptions) : Settles o [] [] :=
  @settles_self o [] ⟨trivial, fun _ hb => (by cases hb), unindented_nil⟩ rfl (fun _ => rfl)
    ⟨List.forall_mem_nil _, List.forall_mem_nil _, .nil, .nil⟩ rfl

/-- Laid rows of steady bodies settle, in rows that are laid again. -/
theorem Laid.exists_settled {rows : List Row} (h : Laid s unit rows) (hunit : s.indentUnit = .ok unit)
    (steady : ∀ l ∈ rows.map Row.text, Steady s.regular (trimStart l)) :
    ∃ rows', Laid s unit rows' ∧ List.Forall₂ (Row.Over (Settles s.regular)) rows rows' ∧
      ∀ r ∈ rows', Settles s.regular r.body r.body := by
  have bodies : ∀ r ∈ rows, Steady s.regular r.body := by
    intro r hr
    have blank := h.aligned.blank (isSpaceOrTab_of_indentUnit hunit) r hr
    have here := steady r.text (List.mem_map_of_mem hr)
    rwa [Row.text, trimStart, dropWhile_append_stop (fun c hc => isBlank_of_isSpaceOrTab (blank c hc))
      (h.aligned.front r hr)] at here
  obtain ⟨rows', related⟩ := Row.exists_over (fun b e => Settles s.regular b e ∧
      Settles s.regular e e ∧ Indentation.Alike b e ∧ (LineEnd.Clean b → LineEnd.Clean e))
    fun r hr => Formatter.exists_settled (bodies r hr) (h.aligned.front r hr) (h.inLine r hr)
  refine ⟨rows', h.of_alike (related.imp fun _ r' pair => ?_),
    related.imp fun _ _ pair => ⟨pair.1, pair.2.1⟩, fun r' hr' => ?_⟩
  · obtain ⟨indent, -, ⟨-, ⟨⟨c, sound, body⟩, -⟩, -⟩, alike, clean⟩ := pair
    exact ⟨indent, alike, body ▸ sound.front, body ▸ Code.onLine sound.lexed, clean⟩
  · obtain ⟨r, -, pair⟩ := Row.exists_of_over related hr'
    exact pair.2.2.1

/-- What the passes make of laid rows of steady bodies they leave alone. -/
theorem exists_kept (off : s.lineLimit.IsOff) (hunit : s.indentUnit = .ok unit) {rows : List Row}
    (h : Laid s unit rows) (steady : ∀ l ∈ rows.map Row.text, Steady s.regular (trimStart l))
    {source : Text} (made : runPasses s.planOf Pass.front source = .ok (Row.join rows)) :
    ∃ t, runPasses s.planOf Pass.all source = .ok t ∧ runPasses s.planOf Pass.all t = .ok t := by
  obtain ⟨settled, laid, related, lasting⟩ := h.exists_settled hunit steady
  obtain ⟨closed, added, first, second⟩ := exists_closed off laid
  have laidAgain : Laid s unit closed := by
    rcases added with rfl | rfl
    · exact laid
    · exact laid.concat
  have lastingAgain : ∀ r ∈ closed, Settles s.regular r.body r.body := by
    rcases added with rfl | rfl
    · exact lasting
    · exact List.forall_mem_append.mpr ⟨lasting, List.forall_mem_singleton.mpr (settles_nil _)⟩
  have all {t u v w : Text} (hu : runPasses s.planOf Pass.front t = .ok u)
      (hv : runPasses s.planOf Pass.byLine u = .ok v)
      (hw : runPasses s.planOf [.lineLength, .finalNewline] v = .ok w) :
      runPasses s.planOf Pass.all t = .ok w := by
    rw [Pass.all_eq, runPasses_append]
    exact ⟨v, (runPasses_append ..).mpr ⟨u, hu, hv⟩, hw⟩
  have once := runPasses_settled hunit h related
  have twice := runPasses_settled hunit laidAgain
    (List.forall₂_same.mpr fun r hr => ⟨rfl, lastingAgain r hr⟩)
  exact ⟨Row.join closed, all made once first, all (laidAgain.again hunit) twice second⟩

end FormatSettings

namespace Formatter

open FormatSettings

/-- With the line length off, formatting what is formatted changes nothing, if each line is
steady once its end and its indentation are settled. -/
theorem format_format {s : FormatSettings} {plan : Plan} (hs : s.plan = .ok plan)
    (off : s.lineLimit.IsOff) {source : Text}
    (steady : ∀ t, runPasses plan Pass.front source = .ok t →
      ∀ l ∈ lines t, Steady s.regular (trimStart l)) :
    (format { plan := plan } (format { plan := plan } source).text).text =
      (format { plan := plan } source).text := by
  obtain rfl := eq_planOf hs
  cases run : runPasses s.planOf Pass.all source with
  | error failure =>
      have kept : (format { plan := s.planOf } source).text = source := by
        rw [format, formatWith, run]
      rw [kept, kept]
  | ok u =>
      have split := run
      rw [Pass.all_eq, List.append_assoc] at split
      obtain ⟨unit, hunit⟩ := indentUnit_of_run split
      obtain ⟨rows, laid, made⟩ := exists_laid hunit source
      have rowLines := laid.lines_join hunit
      obtain ⟨t, once, again⟩ := exists_kept off hunit laid (rowLines ▸ steady _ made) made
      have formatted {t w : Text} (hw : runPasses s.planOf Pass.all t = .ok w) :
          (format { plan := s.planOf } t).text = w := by
        rw [format, formatWith, hw]
      rw [formatted once, formatted again]

/-- A block, a string that takes the other quotes, a call with a semicolon to come and a quote in a
comment. -/
theorem format_format_block :
    let f : Formatter := { plan := FormatOptions.plan { maxLineLength := 0 } }
    let source := "if(x>0)\x7b\n\ty=[ 1, 'a']\n\x7d\nf ( 1,2 ) // don't".toList
    (f.format (f.format source).text).text = (f.format source).text := by
  intro f source
  refine format_format (FormatSettings.plan_ofOptions { maxLineLength := 0 }) (Int.le_refl 0)
    fun t run => ?_
  obtain rfl : "if(x>0)\x7b\n  y=[ 1, 'a']\n\x7d\nf ( 1,2 ) // don't".toList = t := by
    have made : runPasses f.plan Pass.front source =
        .ok "if(x>0)\x7b\n  y=[ 1, 'a']\n\x7d\nf ( 1,2 ) // don't".toList := by decide +kernel
    exact Except.ok.inj (made.symm.trans run)
  decide +kernel

/-- No condition can be left out. The second run changes a line where the swap of quotes makes code
of a string, one with an open quote, one with a mark in the code, one that is not read atom by atom,
in two ways, and one that takes its semicolon behind a bracket. -/
theorem format_changes_again :
    let f : Formatter := { plan := FormatOptions.plan { maxLineLength := 0 } }
    let changesAgain (source : String) : Prop :=
      (f.format (f.format source.toList).text).text ≠ (f.format source.toList).text
    changesAgain "'a\"+1\"b'" ∧ changesAgain "\"'+'" ∧ changesAgain "\x000//(\nx" ∧
      changesAgain "a! =b" ∧ changesAgain "x=1e+-2" ∧ changesAgain "x=[" := by
  decide +kernel

end Formatter
end MotionExpr
