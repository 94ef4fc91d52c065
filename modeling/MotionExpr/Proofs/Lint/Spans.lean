import Mathlib.Data.List.Pairwise
import MotionExpr.Proofs.Lint.Independence
import MotionExpr.Proofs.Fix.Patch

/-!
What a run reports spans tokens: one token for each finding, which stands in its line where the
finding says so. Within a rule the findings go forward through the text.
-/

namespace MotionExpr

open Token

/-- The place of a finding is that of a token. -/
structure Diagnostic.Spans (d : Diagnostic) (t : Token) (source : Text) : Prop where
  line : d.line = t.line
  column : d.column = t.column
  endLine : d.endLine = t.line
  endColumn : d.endColumn = t.endColumn
  counted : 1 ≤ d.line ∧ 1 ≤ d.column
  row : (Text.lines source)[(d.line - 1).toNat]? = some d.source
  slice : (d.source.upTo (d.endColumn - 1)).startingAt (d.column - 1) = t.text

/-- A finding spans the token it is made from. -/
theorem LintContext.spans_finding {x : LintContext} {t : Token} {source : Text}
    (lines : x.lines = Text.lines source) (stands : t.StandsIn source) (r : Rule)
    (message : String) (suggestions : List Text) :
    (x.finding r t message suggestions).Spans t source := by
  obtain ⟨row, l, front, behind, here, whole, line, column⟩ := stands
  have index : (t.line - 1).toNat = row := by omega
  have text : x.lineText t.line = l := by
    rw [lineText, if_pos (by omega), lines, index, here]
    rfl
  refine ⟨rfl, rfl, rfl, rfl, ⟨show 1 ≤ t.line by omega, show 1 ≤ t.column by omega⟩, ?_, ?_⟩
  · change (Text.lines source)[(t.line - 1).toNat]? = some (x.lineText t.line)
    rw [text, index, here]
  · change ((x.lineText t.line).upTo (t.endColumn - 1)).startingAt (t.column - 1) = t.text
    have stop : t.endColumn - 1 = ((front ++ t.text).length : Int) := by
      rw [endColumn, List.length_append]
      omega
    have start : t.column - 1 = (front.length : Int) := by omega
    rw [text, whole, stop, Text.upTo_append, start, Text.startingAt_append]

/-- Of two tokens of a text, one stands before the other. -/
theorem Token.before_or_before {p : Profile} {source : Text} {t u : Token}
    (ht : t ∈ tokenize p source) (hu : u ∈ tokenize p source) (differ : t ≠ u) :
    Before t u ∨ Before u t := by
  have either : (tokenize p source).Pairwise fun a b => Before a b ∨ Before b a :=
    (pairwise_tokenize p source).imp .inl
  have symmetric : Std.Symm fun a b : Token => Before a b ∨ Before b a := ⟨fun _ _ => Or.symm⟩
  exact either.forall ht hu differ

/-- No two tokens of a text begin at one place. -/
theorem Token.eq_of_place {p : Profile} {source : Text} {t u : Token} (ht : t ∈ tokenize p source)
    (hu : u ∈ tokenize p source) (line : t.line = u.line) (column : t.column = u.column) : t = u := by
  by_contra differ
  rcases before_or_before ht hu differ with (before | before) | (before | before) <;> omega

namespace Linter

theorem finish_finding (o : LintOptions) (d : Diagnostic) :
    ∃ severity, o.finish d = { d with severity } := by
  rw [LintOptions.finish]
  split
  · exact ⟨_, rfl⟩
  · exact ⟨d.severity, rfl⟩

theorem spans_finish_finding {l : Linter} {o : LintOptions} {source : Text} {t : Token}
    (ht : t ∈ tokenize l.profile source) (r : Rule) (message : String) (suggestions : List Text) :
    (o.finish ((context l.profile o source).finding r t message suggestions)).Spans t source := by
  obtain ⟨severity, finished⟩ :=
    finish_finding o ((context l.profile o source).finding r t message suggestions)
  obtain ⟨line, column, endLine, endColumn, counted, row, slice⟩ :=
    (context l.profile o source).spans_finding rfl (standsIn_of_mem_tokenize ht) r message suggestions
  rw [finished]
  exact ⟨line, column, endLine, endColumn, counted, row, slice⟩

theorem spans_of_mem_lintWith {l : Linter} {o : LintOptions} {source : Text} {d : Diagnostic}
    (hd : d ∈ l.lintWith o source) (hr : d.rule ≠ Rule.complexity.id) :
    ∃ t ∈ tokenize l.profile source, d.Spans t source := by
  obtain ⟨r, -, e, he, rfl⟩ := mem_run.mp hd
  rw [LintOptions.rule_finish, rule_of_mem_report he] at hr
  obtain ⟨t, ht, message, suggestions, rfl⟩ :=
    (anchored_report _ fun same => hr (congrArg Rule.id same)).exists_token he
  exact ⟨t, ht, spans_finish_finding ht r message suggestions⟩

/-- The findings of a rule go forward. Findings of different rules need no order among them. -/
theorem pairwise_lintWith (l : Linter) (o : LintOptions) (source : Text) :
    (l.lintWith o source).Pairwise fun d e => d.rule = e.rule → d.Precedes e := by
  rw [lintWith_eq, List.pairwise_flatMap]
  refine ⟨fun r _ => List.pairwise_map.mpr ?_, ?_⟩
  · refine (pairwise_report (pairwise_tokenize l.profile source) r).imp fun {d e} h _ => ?_
    obtain ⟨_, first⟩ := finish_finding o d
    obtain ⟨_, second⟩ := finish_finding o e
    rw [first, second]
    exact h
  · refine (nodup_enabledRules o).imp fun differ d hd e he same => ?_
    rw [LintOptions.rule_of_mem_finished hd, LintOptions.rule_of_mem_finished he] at same
    exact absurd (Rule.id_inj.mp same) differ

/-- Every finding but that on complexity spans one token of the text and no other, and no rule
reports a place twice. -/
theorem findings_span_tokens (l : Linter) (o : LintOptions) (source : Text) :
    (∀ d ∈ l.lintWith o source, d.rule ≠ Rule.complexity.id →
      ∃! t, t ∈ tokenize l.profile source ∧ d.Spans t source) ∧
    (l.lintWith o source).Pairwise fun d e => d.rule = e.rule → d.Precedes e := by
  refine ⟨fun d hd hr => ?_, l.pairwise_lintWith o source⟩
  obtain ⟨t, ht, spans⟩ := spans_of_mem_lintWith hd hr
  exact ⟨t, ⟨ht, spans⟩, fun u ⟨hu, same⟩ =>
    eq_of_place hu ht (same.line.symm.trans spans.line) (same.column.symm.trans spans.column)⟩

/-- The second of two lines declares a name whose value never changes. -/
theorem findings_span_tokens_second_line :
    ∃ d ∈ lintWith {} {} "x\nvar y".toList, d.rule = Rule.constants.id ∧ d.line = 2 ∧
      ∃! t, t ∈ tokenize Profile.standard "x\nvar y".toList ∧ d.Spans t "x\nvar y".toList := by
  obtain ⟨d, hd, hr, hl⟩ : ∃ d ∈ lintWith {} {} "x\nvar y".toList,
      d.rule = Rule.constants.id ∧ d.line = 2 := by decide +kernel
  exact ⟨d, hd, hr, hl, (findings_span_tokens {} {} "x\nvar y".toList).1 d hd (by rw [hr]; decide)⟩

end Linter
end MotionExpr
