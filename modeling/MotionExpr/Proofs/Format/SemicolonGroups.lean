import MotionExpr.Proofs.Format.Lines
import MotionExpr.Proofs.Format.SemicolonSites
import MotionExpr.Format.Pass

/-!
Semicolons and open groups. Lines are terminated one by one, so a semicolon may
stand in a group that spans lines, as in the body of a function that is an
argument. Nothing opens or closes behind it on its line: a group that it stands
in is still open where the line ends.
-/

namespace MotionExpr
namespace Semicolon

open Literal

/-- The groups open behind some pieces, innermost first, each given by its bracket. -/
def openGroups : (groups : Text) → List Piece → Text
  | groups, [] => groups
  | groups, .literal _ :: ps => openGroups groups ps
  | groups, .code c :: ps =>
      if c = '(' || c = '[' then openGroups (c :: groups) ps
      else if c = ')' || c = ']' then openGroups groups.tail ps
      else openGroups groups ps

theorem openGroups_append (groups : Text) (ps qs : List Piece) :
    openGroups groups (ps ++ qs) = openGroups (openGroups groups ps) qs := by
  induction ps generalizing groups with
  | nil => rfl
  | cons p ps ih =>
      cases p with
      | literal t => exact ih groups
      | code c =>
          simp only [List.cons_append, openGroups]
          split
          · exact ih _
          · split <;> exact ih _

theorem openGroups_of_closesLine {ps : List Piece}
    (h : ∀ c, .code c ∈ ps → closesLine c = true) (groups : Text) :
    openGroups groups ps = groups := by
  induction ps with
  | nil => rfl
  | cons p ps ih =>
      have rest := ih fun c hc => h c (List.mem_cons_of_mem _ hc)
      cases p with
      | literal t => exact rest
      | code c =>
          have hc := h c (List.mem_cons_self ..)
          have ne (d : Char) (hd : closesLine d = false) : c ≠ d := by
            rintro rfl
            rw [hc] at hd
            cases hd
          simp [openGroups, ne '(' (by decide), ne '[' (by decide), ne ')' (by decide),
            ne ']' (by decide), rest]

theorem openGroups_site {front back : Text} (h : Site front back) (groups : Text) :
    openGroups groups (pieces (front ++ back)) = openGroups groups (pieces front) := by
  rw [h.between, openGroups_append, openGroups_of_closesLine h.closes]

/-- The groups open behind the first lines of a source and the start of the next. -/
def groupsAt (source : Text) (row : Nat) (front : Text) : Text :=
  openGroups [] (((Text.lines source).take row).flatMap pieces ++ pieces front)

/-- A line of a source takes a semicolon, between two of its pieces. The groups that the
semicolon stands in are still open at the end of the line. The code of the line does not
end in an opening parenthesis or brace; if it ends in a closing parenthesis, then it has as
many of one kind as of the other. -/
structure Takes (source : Text) (row : Nat) (front back : Text) : Prop where
  between : pieces (front ++ back) = pieces front ++ pieces back
  groups : groupsAt source row front = groupsAt source row (front ++ back)
  notParenthesis : (lineCode (front ++ back)).getLast? ≠ some (.code '(')
  notBrace : (lineCode (front ++ back)).getLast? ≠ some (.code '\x7b')
  balanced : (lineCode (front ++ back)).getLast? = some (.code ')') →
    (lineCode (front ++ back)).count (.code '(') = (lineCode (front ++ back)).count (.code ')')

theorem Takes.ofSite {source : Text} {row : Nat} {front back : Text} (site : Site front back)
    (h : (terminate? (numbered 0 (lineCode (front ++ back)))).isSome) :
    Takes source row front back := by
  obtain ⟨u, hu⟩ := Option.isSome_iff_exists.mp h
  have last {c : Char} (hc : (lineCode (front ++ back)).getLast? = some (.code c)) :
      (numbered 0 (lineCode (front ++ back))).getLast? = some c := by
    rw [getLast?_numbered, hc]
    rfl
  constructor
  · exact site.between
  · rw [groupsAt, groupsAt, openGroups_append, openGroups_append, openGroups_site site]
  · intro hc
    rw [terminate?_opening (.inl (last hc))] at hu
    cases hu
  · intro hc
    rw [terminate?_opening (.inr (last hc))] at hu
    cases hu
  · intro hc
    have counts := balanced_of_terminate? hu (last hc)
    rwa [count_numbered (by decide) (by decide), count_numbered (by decide) (by decide)] at counts

/-- The pass gives each line back as it is or with one semicolon. -/
theorem semicolon_in_groups_left_open (o : FormatOptions) {source : Text} (h : mark ∉ source) :
    ∃ t, Pass.apply o .semicolons source = .ok t ∧
      (Text.lines t).length = (Text.lines source).length ∧
      ∀ row line, (Text.lines source)[row]? = some line →
        (Text.lines t)[row]? = some line ∨
          ∃ front back, line = front ++ back ∧ Takes source row front back ∧
            (Text.lines t)[row]? = some (front ++ ';' :: back) := by
  have terminated (line : Text) (hl : line ∈ Text.lines source) :
      ∃ u, terminateLine line = .ok u ∧ '\n' ∉ u ∧
        (u = line ∨ ∃ front back, line = front ++ back ∧ u = front ++ ';' :: back ∧
          Site front back ∧ (terminate? (numbered 0 (lineCode line))).isSome) := by
    have hn := Text.not_newline_of_mem_lines hl
    obtain ⟨u, hu, site⟩ := terminateLine_spec (fun hm => h (Text.mem_of_mem_lines hl hm)) hn
    refine ⟨u, hu, ?_, site⟩
    rcases site with rfl | ⟨front, back, rfl, rfl, -⟩
    · exact hn
    · simpa using hn
  obtain ⟨t, ht, related⟩ := Line.lines_of_mapLines terminated
  refine ⟨t, ht, related.length_eq.symm, fun row line hline => ?_⟩
  obtain ⟨u, hu, rfl | ⟨front, back, rfl, rfl, site, hsome⟩⟩ :=
    Line.getElem?_of_forall₂ related hline
  · exact .inl hu
  · exact .inr ⟨front, back, rfl, .ofSite site hsome, hu⟩

/-- The call is still open where the line inside of it ends, and the line takes its semicolon there. -/
theorem semicolon_in_groups_left_open_call :
    let source := "foo(function () \x7b\n  x = 1 // y\n\x7d)".toList
    let line := "  x = 1 // y".toList
    mark ∉ source ∧ (Text.lines source)[1]? = some line ∧
      ∃ t, Pass.apply {} .semicolons source = .ok t ∧
        ∃ front back, line = front ++ back ∧ Takes source 1 front back ∧
          groupsAt source 1 front = ['('] ∧ (Text.lines t)[1]? = some (front ++ ';' :: back) := by
  intro source line
  have unmarked : mark ∉ source := by decide
  have here : (Text.lines source)[1]? = some line := rfl
  obtain ⟨t, ht, -, rows⟩ := semicolon_in_groups_left_open {} unmarked
  refine ⟨unmarked, here, t, ht, ?_⟩
  rcases rows 1 line here with same | ⟨front, back, split, takes, taken⟩
  · have given : Pass.apply {} .semicolons source =
        .ok "foo(function () \x7b\n  x = 1; // y\n\x7d)".toList := rfl
    obtain rfl : _ = t := Except.ok.inj (given.symm.trans ht)
    exact absurd same (by decide)
  · exact ⟨front, back, split, takes, takes.groups.trans (by rw [← split]; rfl), taken⟩

/-- The body of a function that is an argument is terminated inside the parentheses of the
call. -/
theorem semicolon_in_argument :
    let source := "foo(function () \x7b\n  x = 1\n\x7d)".toList
    Pass.apply {} .semicolons source = .ok "foo(function () \x7b\n  x = 1;\n\x7d)".toList ∧
      groupsAt source 1 "  x = 1".toList = ['('] := by
  intro source
  exact ⟨rfl, rfl⟩

end Semicolon
end MotionExpr
