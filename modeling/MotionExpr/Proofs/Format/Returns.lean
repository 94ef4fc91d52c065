import MotionExpr.Proofs.Format.Indented
import MotionExpr.Proofs.Format.LineEnds
import MotionExpr.Proofs.Format.LineWidths
import MotionExpr.Proofs.Format.OnType
import MotionExpr.Proofs.Format.Reindented

/-!
Carriage returns. A pass takes them out or leaves them where they are, so a text without them is
formatted to one without them, by any passes in any order.
-/

namespace MotionExpr

open Text

/-- Blanks stay where they are when quotes are swapped. -/
theorem Quote.mem_of_mem_restyle (style : QuoteStyle) {l : Text} {c : Char}
    (blank : isBlank c = true) (hc : c ∈ restyle style l) : c ∈ l := by
  have member : plainQuote c ∈ l.map plainQuote :=
    map_plainQuote_restyle style l ▸ List.mem_map_of_mem hc
  obtain ⟨d, hd, plain⟩ := List.mem_map.mp member
  rcases Token.isQuote_of_plainQuote_eq plain with rfl | ⟨-, quote⟩
  · exact hd
  · rw [(Token.plain_of_isQuote quote).1] at blank
    cases blank

namespace Wrap

variable {o : FormatOptions}

theorem not_return_piecesFrom (fuel : Nat) {l : Text} (h : '\r' ∉ l) :
    ∀ u ∈ piecesFrom o fuel (splitIndent l).1 (trim l), '\r' ∉ u :=
  not_mem_piecesFrom o fuel (by decide) (fun hc => h (Line.mem_indent hc)) fun hc =>
    h ((List.dropWhile_sublist _).mem ((isPrefix_dropEndWhile isBlank _).mem hc))

end Wrap

/-- A pass that a plan for options runs does what it does under them. -/
theorem FormatOptions.apply_of_plan {o : FormatOptions} {p : Pass} {f : Transformation}
    (hf : o.plan p = some f) {t u : Text} (hu : f t = .ok u) : p.apply o t = .ok u := by
  rw [plan] at hf
  split at hf <;> cases hf
  dsimp only at hu
  cases hv : p.apply o t with
  | ok v =>
      rw [hv] at hu
      cases hu
      rfl
  | error fault =>
      rw [hv] at hu
      cases hu

namespace FormatSettings

variable {s : FormatSettings}

/-- What a pass makes of a text, where it succeeds. -/
inductive Makes (s : FormatSettings) (t : Text) : Pass → Text → Prop where
  | unified : Makes s t .lineEndings (LineEnd.unify t)
  | trimmed : Makes s t .trailingBlanks (LineEnd.trim t)
  | indented {unit : IndentUnit} : s.indentUnit = .ok unit →
      Makes s t .indentation (Indentation.apply unit t)
  | byLine {p : Pass} {f : Text → Except Literal.Fault Text} {u : Text} :
      p.onLine? s.regular = some f → Line.mapLines f t = .ok u → Makes s t p u
  | wrapped : Makes s t .lineLength (Wrap.apply s.regular t)
  | measured {limit : Float} {u : Text} : Wrap.measure s.regular limit t = .ok u →
      Makes s t .lineLength u
  | closed : Makes s t .finalNewline (LineEnd.close t)

theorem makes_of_planOf {p : Pass} {f : Transformation} (hf : s.planOf p = some f) {t u : Text}
    (hu : f t = .ok u) : s.Makes t p u := by
  have onLine {g : Text → Except Literal.Fault Text} (hg : p.onLine? s.regular = some g)
      (hr : s.regular.plan p = some f) : s.Makes t p u :=
    .byLine hg (Pass.apply_eq_mapLines hg t ▸ FormatOptions.apply_of_plan hr hu)
  cases p with
  | lineEndings =>
      cases FormatOptions.apply_of_plan hf hu
      exact .unified
  | trailingBlanks =>
      cases FormatOptions.apply_of_plan hf hu
      exact .trimmed
  | indentation =>
      cases hf
      cases hunit : s.indentUnit with
      | ok unit =>
          simp only [indentation, hunit] at hu
          cases hu
          exact .indented hunit
      | error fault =>
          simp only [indentation, hunit] at hu
          cases hu
  | lineLength =>
      rcases of_lineLength hf hu with rfl | ⟨limit, hm⟩
      · exact .wrapped
      · exact .measured hm
  | finalNewline =>
      cases FormatOptions.apply_of_plan hf hu
      exact .closed
  | brackets | calls | operators | commas | semicolons | quotes => exact onLine rfl hf

end FormatSettings

end MotionExpr
