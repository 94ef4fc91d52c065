import MotionExpr.Proofs.Format.LineWidths
import MotionExpr.Proofs.Format.RangeLines

/-!
The indentation of the lines that formatting on typing makes. A line is formatted without its
indentation, which is put back in front of the result: of its first line, that is. Where the result
has several lines, the others stand where formatting a text of that line alone puts them, and breaking
puts each piece two columns further in than the one before.
-/

namespace MotionExpr

open Text

namespace Text

/-- The indentation of the lines that follow, if one stands before them all. -/
theorem isPrefix_splitIndent {indent l : Text} (hi : ∀ c ∈ indent, isBlank c = true)
    (h : indent <+: l) : indent <+: (splitIndent l).1 := by
  obtain ⟨rest, rfl⟩ := h
  rw [splitIndent, List.takeWhile_append_of_pos hi]
  exact List.prefix_append _ _

theorem lines_append_of_lines {a t l : Text} {ls : List Text} (ha : '\n' ∉ a)
    (h : lines t = l :: ls) : lines (a ++ t) = (a ++ l) :: ls := by
  induction a with
  | nil => exact h
  | cons c a ih =>
      obtain ⟨here, rest⟩ := not_or.mp (mt List.mem_cons.mpr ha)
      rw [List.cons_append, lines, if_neg (Ne.symm here), ih rest]
      rfl

end Text

namespace Wrap

/-- Pieces of a line, each behind the indentation of the one before and two columns more. -/
def Stepped : Text → List Text → Prop
  | _, [] => True
  | indent, l :: ls => (∃ b, Unindented b ∧ l = indent ++ b) ∧ Stepped (indent ++ continuation) ls

theorem Stepped.singleton {indent b : Text} (h : Unindented b) : Stepped indent [indent ++ b] :=
  ⟨⟨b, h, rfl⟩, trivial⟩

theorem Stepped.indent_getElem? {indent : Text} {ls : List Text} (h : Stepped indent ls)
    (hi : ∀ c ∈ indent, isBlank c = true) {k : Nat} {l : Text} (hl : ls[k]? = some l) :
    (splitIndent l).1 = indent ++ List.replicate (2 * k) ' ' := by
  induction ls generalizing indent k with
  | nil => cases hl
  | cons l' ls ih =>
      obtain ⟨⟨b, front, rfl⟩, rest⟩ := h
      cases k with
      | zero =>
          cases hl
          rw [splitIndent_indented hi front, Nat.mul_zero, List.replicate_zero, List.append_nil]
      | succ k =>
          rw [ih rest (deeper hi) hl, List.append_assoc, Nat.mul_add, Nat.add_comm,
            List.replicate_add]
          rfl

theorem stepped_piecesFrom (o : FormatOptions) (fuel : Nat) (indent : Text) {content : Text}
    (front : Unindented content) : Stepped indent (piecesFrom o fuel indent content) := by
  induction fuel generalizing indent content with
  | zero => exact .singleton front
  | succ fuel ih =>
      cases hcut : cutAt? o indent content with
      | none =>
          rw [piecesFrom_of_none hcut]
          exact .singleton front
      | some i =>
          rw [(piecesFrom_of_some hcut fuel).2]
          exact ⟨⟨_, unindented_trimEnd_take front i, rfl⟩, ih _ (unindented_trim _)⟩

section Row

variable {o : FormatOptions} {r : Row} (h : r.Fits IsBody)

include h

theorem splitIndent_row : splitIndent r.text = (r.indent, r.body) :=
  splitIndent_indented h.blank h.body.front

theorem stepped_wrapLine : wrapLine o r.text ≠ [] ∧ Stepped r.indent (wrapLine o r.text) := by
  rw [wrapLine]
  split
  · exact ⟨List.cons_ne_nil _ _, .singleton h.body.front⟩
  · rw [pieces, splitIndent_row h]
    exact ⟨piecesFrom_ne_nil _ _ _ _, stepped_piecesFrom o _ _ (unindented_trim _)⟩

theorem stepped_measureLine {limit : Float} {u : Text} (hu : measureLine o limit r.text = .ok [u]) :
    Stepped r.indent [u] := by
  obtain ⟨_, ⟨⟩, -, rfl | rfl⟩ := of_measureLine hu
  · exact .singleton h.body.front
  · rw [splitIndent_row h]
    exact .singleton (unindented_trim _)

end Row
end Wrap

namespace FormatSettings

open Formatter Wrap

variable {s : FormatSettings}

/-- Each row becomes pieces, whatever the limit. -/
theorem exists_stepped {v u : Text} (run : runPasses s.planOf [.lineLength] v = .ok u)
    {rows : List Row} (hlines : lines v = rows.map Row.text) (fits : ∀ r ∈ rows, r.Fits IsBody) :
    ∃ groups : List (List Text), lines u = groups.flatten ∧
      List.Forall₂ (fun r ls => ls ≠ [] ∧ Stepped r.indent ls) rows groups := by
  have onePiece (h : List.Forall₂ (fun r l => Stepped r.indent [l]) rows (lines u)) :
      ∃ groups : List (List Text), lines u = groups.flatten ∧
        List.Forall₂ (fun r ls => ls ≠ [] ∧ Stepped r.indent ls) rows groups := by
    refine ⟨(lines u).map ([·]), by rw [← List.flatMap_def, List.flatMap_singleton'], ?_⟩
    rw [List.forall₂_map_right_iff]
    exact h.imp fun _ _ stepped => ⟨List.cons_ne_nil _ _, stepped⟩
  obtain ⟨_, made, ⟨⟩⟩ := runPasses_cons_ok.mp run
  cases hf : s.planOf .lineLength with
  | none =>
      rw [hf] at made
      obtain rfl : u = v := made
      refine onePiece ?_
      rw [hlines, List.forall₂_map_right_iff]
      exact List.forall₂_same.mpr fun r hr => .singleton (fits r hr).body.front
  | some f =>
      rw [hf] at made
      obtain rfl | ⟨limit, hm⟩ := of_lineLength hf made
      · refine ⟨(lines v).map (wrapLine s.regular), by rw [lines_apply, List.flatMap_def], ?_⟩
        rw [hlines, List.map_map, List.forall₂_map_right_iff]
        exact List.forall₂_same.mpr fun r hr => stepped_wrapLine (fits r hr)
      · have related := forall₂_of_measure hm
        rw [hlines, List.forall₂_map_left_iff] at related
        exact onePiece (((List.forall₂_and_left _ _).mpr ⟨fits, related⟩).imp fun _ _ pair =>
          stepped_measureLine pair.1 pair.2)

/-- The lines of a text without a newline, formatted for typing. The first begins with what shows,
and each other one stands behind a whole number of units and two spaces for each break. Without
returns in the text all lines are pieces of one. -/
theorem lines_of_open_run {t u : Text} (run : runPasses (s.planOf.without .finalNewline) Pass.all t = .ok u)
    (onLine : '\n' ∉ t) :
    ∃ first rest, lines u = first :: rest ∧ Unindented first ∧
      (∀ l ∈ rest, ∃ unit n k, s.indentUnit = .ok unit ∧
        (splitIndent l).1 = unit.atLevel n ++ List.replicate (2 * k) ' ') ∧
      ('\r' ∉ t → ∀ k l, rest[k]? = some l → (splitIndent l).1 = List.replicate (2 * (k + 1)) ' ') := by
  obtain ⟨v, hv, hu⟩ := (runPasses_append ..).mp (runPasses_open_iff.mp run)
  obtain ⟨unit, rows, hunit, hlines, bare, fits, margin⟩ := exists_rows hv
  obtain ⟨groups, flat, stepped⟩ := exists_stepped hu hlines fun r hr => (fits r hr).1
  have placed : ∀ g ∈ groups, ∀ l ∈ g, ∃ unit n k, s.indentUnit = .ok unit ∧
      (splitIndent l).1 = unit.atLevel n ++ List.replicate (2 * k) ' ' :=
    Line.forall_of_forall₂ stepped fits fun fit pair l hl => by
      obtain ⟨k, hk⟩ := List.getElem?_of_mem hl
      obtain ⟨n, level⟩ := fit.2.1
      exact ⟨unit, n, k, hunit, level ▸ pair.2.indent_getElem? fit.1.blank hk⟩
  cases stepped with
  | nil => exact absurd flat (lines_ne_nil u)
  | @cons r g rows groups pair others =>
      obtain ⟨nonempty, steps⟩ := pair
      obtain ⟨first, ls, rfl⟩ := List.exists_cons_of_ne_nil nonempty
      have atMargin : r.indent = [] := margin r rfl
      rw [atMargin] at steps
      obtain ⟨_, front, rfl⟩ := steps.1
      obtain ⟨here, below⟩ := List.forall_mem_cons.mp placed
      refine ⟨first, ls ++ groups.flatten, flat, front, fun l hl => ?_, fun noReturn k l hl => ?_⟩
      · rcases List.mem_append.mp hl with hl | hl
        · exact here l (List.mem_cons_of_mem _ hl)
        · obtain ⟨g, hg, hl⟩ := List.mem_flatten.mp hl
          exact below g hg l hl
      · rw [LineEnd.unify_eq_self noReturn, lines_of_not_newline onLine] at bare
        have alone : rows = [] := List.map_eq_nil_iff.mp (List.cons_eq_cons.mp bare).2
        rw [alone, List.forall₂_nil_left_iff] at others
        rw [others, List.flatten_nil, List.append_nil] at hl
        exact steps.indent_getElem? (List.forall_mem_nil _) (k := k + 1) hl

end FormatSettings

namespace Formatter

open FormatSettings

theorem of_mem_formatOnType {f : Formatter} {source typed : Text} {line : Int} {e : TextEdit}
    (he : e ∈ f.formatOnType source line typed) :
    ∃ text u, 1 ≤ line ∧ (lines source)[(line - 1).toNat]? = some text ∧
      runPasses (f.plan.without .finalNewline) f.passes (trim text) = .ok u ∧
      f.formatOnType source line typed = [e] ∧
      e = ⟨⟨line, 1, line, text.length + 1⟩, (splitIndent text).1 ++ u⟩ := by
  rw [formatOnType] at he
  dsimp only at he
  split at he
  · next asked =>
      split at he
      · cases he
      · next text hline =>
          split at he
          · cases he
          · next changed =>
              obtain rfl := List.mem_singleton.mp he
              have positive : 1 ≤ line := by
                rw [Bool.and_eq_true, decide_eq_true_iff] at asked
                exact asked.2
              cases run : runPasses (f.plan.without .finalNewline) f.passes (trim text) with
              | error failure => simp [formatWith, run] at changed
              | ok u =>
                  refine ⟨text, u, positive, hline, run, ?_, by rw [formatWith, run]⟩
                  rw [formatOnType]
                  dsimp only
                  rw [if_pos asked, hline]
                  exact if_neg changed
  · cases he

/-- The edit that formats a line on typing replaces that line, and its first line keeps the
indentation. The lines behind it do not stand behind that indentation but behind their own, so that
all keep it just if there is one line only, or if the indentation is two spaces at most. -/
theorem formatOnType_keeps_indent_iff {s : FormatSettings} {plan : Plan} (hs : s.plan = .ok plan)
    {source typed : Text} {line : Int} {e : TextEdit}
    (he : e ∈ formatOnType { plan := plan } source line typed) :
    ∃ text first rest, (lines source)[(line - 1).toNat]? = some text ∧
      formatOnType { plan := plan } source line typed = [e] ∧
      e.range = ⟨line, 1, line, text.length + 1⟩ ∧ e.range.slice source = text ∧
      lines e.newText = ((splitIndent text).1 ++ first) :: rest ∧ Unindented first ∧
      (∀ l ∈ rest, ∃ unit n k, s.indentUnit = .ok unit ∧
        (splitIndent l).1 = unit.atLevel n ++ List.replicate (2 * k) ' ') ∧
      ('\r' ∉ text →
        (∀ k l, rest[k]? = some l → (splitIndent l).1 = List.replicate (2 * (k + 1)) ' ') ∧
        ((∀ l ∈ lines e.newText, (splitIndent text).1 <+: l) ↔
          rest = [] ∨ (splitIndent text).1 <+: [' ', ' '])) := by
  obtain rfl := eq_planOf hs
  obtain ⟨text, u, positive, hline, run, only, rfl⟩ := of_mem_formatOnType he
  obtain ⟨row, rfl⟩ : ∃ row : Nat, line = row + 1 := ⟨(line - 1).toNat, by omega⟩
  have hrow : (lines source)[row]? = some text := by
    rwa [Int.add_sub_cancel, Int.toNat_natCast] at hline
  have slice := (TextRange.cut_lines (Nat.le_refl row) hrow).2.2.1
  rw [TextRange.lines_between (Nat.le_refl row) hrow,
    List.drop_eq_nil_of_le (List.length_take_le row _)] at slice
  have single : '\n' ∉ text := not_newline_of_mem_lines (List.mem_of_getElem? hline)
  have inside {c : Char} (hc : c ∈ trim text) : c ∈ text :=
    (List.dropWhile_sublist _).mem ((isPrefix_dropEndWhile isBlank _).mem hc)
  have blank : ∀ c ∈ (splitIndent text).1, isBlank c = true := List.all_eq_true.mp List.all_takeWhile
  obtain ⟨first, rest, hlines, front, placed, pieces⟩ := lines_of_open_run run (mt inside single)
  have made := lines_append_of_lines (a := (splitIndent text).1)
    (fun hm => single ((List.takeWhile_sublist _).mem hm)) hlines
  refine ⟨text, first, rest, hline, only, rfl, slice, made, front, placed, fun noReturn => ?_⟩
  have stepped := pieces (mt inside noReturn)
  refine ⟨stepped, ?_⟩
  dsimp only
  rw [made, List.forall_mem_cons, and_iff_right (List.prefix_append _ _)]
  constructor
  · intro kept
    cases rest with
    | nil => exact .inl rfl
    | cons l rest =>
        have second := isPrefix_splitIndent blank (kept l (List.mem_cons_self ..))
        rw [stepped 0 l rfl] at second
        exact .inr second
  · rintro (rfl | short) l hl
    · cases hl
    · obtain ⟨k, hk⟩ := List.getElem?_of_mem hl
      have deep : [' ', ' '] <+: (splitIndent l).1 := by
        rw [stepped k l hk, Nat.mul_add, Nat.add_comm, List.replicate_add]
        exact List.prefix_append _ _
      exact (short.trans deep).trans (List.takeWhile_prefix _)

/-- Four spaces stand in front of the first piece only. -/
theorem formatOnType_keeps_indent_broken :
    let f : Formatter := { plan := FormatOptions.plan { maxLineLength := 10 } }
    let e : TextEdit := ⟨⟨1, 1, 1, 21⟩, "    foo(alpha,\n  beta);".toList⟩
    e ∈ f.formatOnType "    foo(alpha, beta)".toList 1 [')'] ∧
      ¬∀ l ∈ lines e.newText, "    ".toList <+: l := by
  intro f e
  have he : e ∈ f.formatOnType "    foo(alpha, beta)".toList 1 [')'] := by decide +kernel
  obtain ⟨text, first, rest, hline, -, -, -, made, -, -, pieces⟩ :=
    formatOnType_keeps_indent_iff (FormatSettings.plan_ofOptions { maxLineLength := 10 }) he
  obtain rfl : "    foo(alpha, beta)".toList = text := Option.some_inj.mp hline
  have split : lines e.newText = ["    foo(alpha,".toList, "  beta);".toList] := by decide
  refine ⟨he, fun kept => ?_⟩
  rcases (pieces (by decide)).2.mp kept with rfl | short
  · rw [split] at made
    cases (List.cons_eq_cons.mp made).2
  · exact absurd short (by decide)

end Formatter
end MotionExpr
