import MotionExpr.Proofs.Format.SemicolonPlaces
import MotionExpr.Proofs.Format.SpacedAgain
import MotionExpr.Proofs.Format.OperatorTokens

/-!
Lines that are comments. Masked, a comment up to the end of the line is one placeholder,
in which no pass over code finds anything. A block comment is no comment: it is masked
like other code, and only the pass for semicolons looks for its first two characters. The
other passes leave it alone where they find nothing of theirs in it, and the one for
operators always finds its slash.
-/

namespace MotionExpr

open Text Literal

namespace Text

variable {rule : Rule} {Found : (passed found rest text : Text) → Prop}

/-- A text without a character that all that is found has stays as it is. -/
theorem Rule.Finds.eq_self (finds : rule.Finds Found) {c : Char}
    (marks : ∀ passed found rest text, Found passed found rest text → c ∈ found)
    (passed : Text) {t : Text} (h : c ∉ t) : substituteFrom rule passed 0 t = t := by
  induction passed, t using finds.induction with
  | nil passed => rfl
  | pass passed d r _ ih => rw [ih fun hc => h (List.mem_cons_of_mem d hc)]
  | found passed found rest text hf _ =>
      exact absurd (List.mem_append_left rest (marks passed found rest text hf)) h

end Text

theorem Bracket.space_eq_self {t : Text} (h : ∀ c ∈ t, isOpening c = false ∧ isClosing c = false) :
    space t = t := by
  have whole := spaceFrom_of_plain h [] [] []
  rwa [List.append_nil, spaceFrom, List.append_nil] at whole

theorem Call.tighten_eq_self {t : Text} (h : '(' ∉ t) : tighten t = t := by
  refine finds_called.eq_self ?_ [] h
  rintro passed _ rest _ ⟨-, -, -, -⟩
  simp

theorem Comma.space_eq_self {t : Text} (h : ',' ∉ t) : space t = t := by
  refine finds_listed.eq_self ?_ [] h
  rintro passed _ rest _ ⟨-, -, -⟩
  simp

namespace Line

theorem filter_tidy {q : Char → Bool} (h : ∀ c, isSpaceOrTab c = true → q c = false)
    (body t : Text) : (tidy body t).filter q = t.filter q := by
  rw [tidy]
  split
  · exact filter_dropWhile h t
  · rw [filter_dropEndWhile h, filter_dropWhile h]

theorem head?_tidy (body t : Text) : (tidy body t).head?.any isSpaceOrTab = false := by
  have start := any_head?_dropWhile isSpaceOrTab t
  rw [tidy]
  split
  · exact start
  · obtain ⟨rest, whole⟩ := isPrefix_dropEndWhile isSpaceOrTab (t.dropWhile isSpaceOrTab)
    cases h : dropEndWhile isSpaceOrTab (t.dropWhile isSpaceOrTab) with
    | nil => rfl
    | cons c r =>
        rw [← whole, h] at start
        exact start

/-- Nothing is trimmed off the masked code of a body. -/
theorem tidy_mask {body : Text} (h : Unindented body) :
    tidy body (mask body).1 = (mask body).1 := by
  rw [tidy, (unindented_mask h).dropWhile]
  split
  · rfl
  · next bare =>
      apply dropEndWhile_of_getLast?
      rw [mask, any_getLast?_numbered]
      refine eq_false_of_ne_true fun space => bare ?_
      rw [← flatMap_text_pieces body]
      exact endsBlank_of_space space

/-- A line whose masked code is left as it is is left as it is. -/
theorem mapCode_of_fixed {f : Text → Text} {line : Text} (clean : mark ∉ line)
    (fixed : f (Operator.code line) = Operator.code line) : mapCode f line = .ok line := by
  have parts := splitIndent_append line
  have body : Unmarked (pieces (splitIndent line).2) :=
    unmarked_pieces fun hm => clean (parts ▸ List.mem_append_right _ hm)
  have front : Unindented (splitIndent line).2 := unindented_trimStart line
  rw [Operator.code] at fixed
  rw [mapCode]
  dsimp only
  split
  · rfl
  · rw [fixed, tidy_mask front, mask, restore_numbered body, flatMap_text_pieces]
    exact congrArg Except.ok parts

variable {source : Text} (clean : mark ∉ source)

include clean

theorem forall₂_mapCode {f : Text → Text} (hf : Regaps f) :
    ∃ t, mapLines (mapCode f) source = .ok t ∧
      List.Forall₂ (fun l e => mapCode f l = .ok e) (lines source) (lines t) := by
  refine lines_of_mapLines fun l hl => ?_
  obtain ⟨e, he, -, onLine, -⟩ :=
    mask_mapCode hf (fun hm => clean (mem_of_mem_lines hl hm)) (not_newline_of_mem_lines hl)
  exact ⟨e, he, onLine, he⟩

theorem forall₂_terminateLine :
    ∃ t, mapLines Semicolon.terminateLine source = .ok t ∧
      List.Forall₂ (fun l e => Semicolon.terminateLine l = .ok e) (lines source) (lines t) := by
  refine lines_of_mapLines fun l hl => ?_
  have parts := splitIndent_append l
  have unmarked : mark ∉ l := fun hm => clean (mem_of_mem_lines hl hm)
  have onLine := not_newline_of_mem_lines hl
  rw [← parts, List.mem_append, not_or] at unmarked onLine
  have front : Unindented (splitIndent l).2 := unindented_trimStart l
  obtain ⟨u, hu, onLine', -⟩ := Semicolon.exists_inserted front onLine.2 unmarked.2
  have run := terminateLine_indented (@isBlank_of_mem_indent l) front
  rw [parts, hu] at run
  exact ⟨_, run, List.not_mem_append onLine.1 onLine', run⟩

end Line

namespace Operator

/-- In front of a star a slash is an operator of its own, and takes a space behind it. -/
theorem exists_tidy_slash (body m : Text) :
    ∃ rest, Line.tidy body (space ('/' :: '*' :: m)) = '/' :: ' ' :: rest := by
  have chain := isChain_tidy_space body ('/' :: '*' :: m)
  have kept : (Line.tidy body (space ('/' :: '*' :: m))).filter (!isSpaceOrTab ·) =
      '/' :: '*' :: m.filter (!isSpaceOrTab ·) := by
    rw [Line.filter_tidy not_gap, filter_space not_gap]
    rfl
  have front := Line.head?_tidy body (space ('/' :: '*' :: m))
  generalize Line.tidy body (space ('/' :: '*' :: m)) = t at chain kept front
  cases t with
  | nil => cases kept
  | cons c t =>
      rw [List.filter_cons_of_pos (by simpa using front)] at kept
      obtain ⟨rfl, rest⟩ := List.cons_eq_cons.mp kept
      cases t with
      | nil => cases rest
      | cons d t =>
          -- an equality sign would be kept where the star is
          rcases (List.isChain_cons_cons.mp chain).1 rfl with rfl | rfl
          · exact ⟨t, rfl⟩
          · cases rest

end Operator

namespace Pass

/-- The passes that go over code line by line. -/
def overCode : List Pass := [.brackets, .calls, .operators, .commas, .semicolons]

/-- The pass succeeds and gives the line of this row back. -/
def Keeps (o : FormatOptions) (p : Pass) (source : Text) (row : Nat) (line : Text) : Prop :=
  ∃ t, p.apply o source = .ok t ∧ (lines t)[row]? = some line

section Row

variable (o : FormatOptions) {source : Text} (clean : mark ∉ source)

include clean

/-- On a text without marks a pass over code succeeds, with the lines in step. -/
theorem forall₂_apply {p : Pass} (hp : p ∈ overCode) {f : Text → Except Literal.Fault Text}
    (hf : p.onLine? o = some f) :
    ∃ t, p.apply o source = .ok t ∧
      List.Forall₂ (fun l e => f l = .ok e) (lines source) (lines t) := by
  simp only [overCode, List.mem_cons, List.not_mem_nil, or_false] at hp
  rcases hp with rfl | rfl | rfl | rfl | rfl <;> cases hf
  · exact Line.forall₂_mapCode clean Bracket.regaps_space
  · exact Line.forall₂_mapCode clean Call.regaps_tighten
  · exact Line.forall₂_mapCode clean Operator.regaps_space
  · exact Line.forall₂_mapCode clean Comma.regaps_space
  · exact Line.forall₂_terminateLine clean

variable {row : Nat} {line : Text} (hl : (lines source)[row]? = some line)

include hl

theorem exists_apply_row {p : Pass} (hp : p ∈ overCode) {f : Text → Except Literal.Fault Text}
    (hf : p.onLine? o = some f) :
    ∃ t e, p.apply o source = .ok t ∧ f line = .ok e ∧ (lines t)[row]? = some e := by
  obtain ⟨t, ht, related⟩ := forall₂_apply o clean hp hf
  obtain ⟨e, he, made⟩ := Line.getElem?_of_forall₂ related hl
  exact ⟨t, e, ht, made, he⟩

theorem keeps_of_fixed {p : Pass} (hp : p ∈ overCode) {f : Text → Except Literal.Fault Text}
    (hf : p.onLine? o = some f) (fixed : f line = .ok line) : p.Keeps o source row line := by
  obtain ⟨t, e, ht, made, he⟩ := exists_apply_row o clean hl hp hf
  rw [fixed] at made
  cases made
  exact ⟨t, ht, he⟩

theorem keeps_code {p : Pass} (hp : p ∈ overCode) {f : Text → Text}
    (hf : p.onLine? o = some (Line.mapCode f))
    (fixed : f (Operator.code line) = Operator.code line) : p.Keeps o source row line :=
  keeps_of_fixed o clean hl hp hf <| Line.mapCode_of_fixed
    (fun hm => clean (mem_of_mem_lines (List.mem_of_getElem? hl) hm)) fixed

theorem keeps_skipped (h : Semicolon.skips (splitIndent line).2 = true) :
    Pass.semicolons.Keeps o source row line := by
  refine keeps_of_fixed o clean hl (by decide) rfl ?_
  have front : Unindented (splitIndent line).2 := unindented_trimStart line
  have run := Line.terminateLine_indented (@Line.isBlank_of_mem_indent line) front
  rwa [Semicolon.terminateLine_of_skips front h, splitIndent_append,
    show (Except.ok (splitIndent line).2 : Except Literal.Fault Text).map
      ((splitIndent line).1 ++ ·) = .ok line
      from congrArg Except.ok (splitIndent_append line)] at run

theorem keeps_comment (comment : "//".toList.isPrefixOf (splitIndent line).2 = true) :
    ∀ p ∈ overCode, p.Keeps o source row line := by
  have onLine : '\n' ∉ (splitIndent line).2 := fun hm =>
    not_newline_of_mem_lines (List.mem_of_getElem? hl) ((List.dropWhile_sublist _).mem hm)
  have code : Operator.code line = placeholder 0 := by
    rw [Operator.code, mask, pieces_comment comment onLine]
    rfl
  intro p hp
  have skipped : Semicolon.skips (splitIndent line).2 = true := by
    rw [Semicolon.skips, comment, Bool.or_true, Bool.true_or]
  have places := hp
  simp only [overCode, List.mem_cons, List.not_mem_nil, or_false] at places
  rcases places with rfl | rfl | rfl | rfl | rfl
  · exact keeps_code o clean hl hp rfl (by rw [code]; decide)
  · exact keeps_code o clean hl hp rfl (by rw [code]; decide)
  · exact keeps_code o clean hl hp rfl (by rw [code]; decide)
  · exact keeps_code o clean hl hp rfl (by rw [code]; decide)
  · exact keeps_skipped o clean hl skipped

/-- The pass for operators puts a space between the two characters that begin a block comment. -/
theorem operators_part_block (block : "/*".toList.isPrefixOf (splitIndent line).2 = true) :
    ∃ t rest, Pass.operators.apply o source = .ok t ∧
      (lines t)[row]? = some ((splitIndent line).1 ++ '/' :: ' ' :: rest) := by
  obtain ⟨t, e, ht, made, he⟩ := exists_apply_row o clean hl (p := .operators) (by decide) rfl
  have member := List.mem_of_getElem? hl
  obtain ⟨qs, whole, -, -, code⟩ := Line.exists_regapped Operator.regaps_space
    (fun hm => clean (mem_of_mem_lines member hm)) (not_newline_of_mem_lines member)
  obtain ⟨r, hr⟩ := List.isPrefixOf_iff_prefix.mp block
  have masked : (mask (splitIndent line).2).1 = '/' :: '*' :: numbered 0 (pieces r) := by
    have slash : length? '/' ('*' :: r) = none := rfl
    have star : length? '*' r = none := rfl
    have parts : pieces ("/*".toList ++ r) = .code '/' :: .code '*' :: pieces r := by
      rw [show "/*".toList ++ r = '/' :: '*' :: r from rfl, pieces_cons, slash]
      dsimp only
      rw [pieces_cons, star]
    rw [← hr, mask, parts]
    rfl
  obtain ⟨rest, spaced⟩ := Operator.exists_tidy_slash (splitIndent line).2 (numbered 0 (pieces r))
  rw [masked, spaced] at code
  have begins : numbered 0 qs = ['/', ' '] ++ rest := code.symm
  obtain ⟨qs', rfl, -⟩ := of_numbered_eq_append begins (by decide)
  rw [made] at whole
  cases whole
  exact ⟨t, qs'.flatMap Piece.text, ht, he⟩

/-- A comment up to the end of its line is left alone by every pass over code. A block comment is
code to all of them but the one for semicolons: it is left alone where it has no bracket, no
opening parenthesis or no comma, and to the one for operators it is a slash and a star. -/
theorem keeps_comment_lines :
    ("//".toList.isPrefixOf (splitIndent line).2 = true →
      ∀ p ∈ overCode, p.Keeps o source row line) ∧
    ("/*".toList.isPrefixOf (splitIndent line).2 = true →
      Pass.semicolons.Keeps o source row line ∧
      ((∀ c ∈ Operator.code line, Bracket.isOpening c = false ∧ Bracket.isClosing c = false) →
        Pass.brackets.Keeps o source row line) ∧
      ('(' ∉ Operator.code line → Pass.calls.Keeps o source row line) ∧
      (',' ∉ Operator.code line → Pass.commas.Keeps o source row line) ∧
      ∃ t rest, Pass.operators.apply o source = .ok t ∧
        (lines t)[row]? = some ((splitIndent line).1 ++ '/' :: ' ' :: rest)) := by
  refine ⟨keeps_comment o clean hl, fun block =>
    ⟨?_, fun plain => ?_, fun plain => ?_, fun plain => ?_, ?_⟩⟩
  · exact keeps_skipped o clean hl (by rw [Semicolon.skips, block, Bool.or_true])
  · exact keeps_code o clean hl (by decide) rfl (Bracket.space_eq_self plain)
  · exact keeps_code o clean hl (by decide) rfl (Call.tighten_eq_self plain)
  · exact keeps_code o clean hl (by decide) rfl (Comma.space_eq_self plain)
  · exact operators_part_block o clean hl block

end Row

/-- One of each, with everything in the first that would be spaced in code. -/
theorem keeps_comment_lines_mixed :
    let source := "x=1\n  // [a]+f (x,y) \"\n\t/* note: a+b */".toList
    let comment := "  // [a]+f (x,y) \"".toList
    let block := "\t/* note: a+b */".toList
    mark ∉ source ∧ (lines source)[1]? = some comment ∧ (lines source)[2]? = some block ∧
      (∀ p ∈ overCode, p.Keeps {} source 1 comment) ∧
      (∀ p ∈ [Pass.semicolons, .brackets, .calls, .commas], p.Keeps {} source 2 block) ∧
      ∃ t rest, Pass.operators.apply {} source = .ok t ∧
        (lines t)[2]? = some ('\t' :: '/' :: ' ' :: rest) := by
  intro source comment block
  have clean : mark ∉ source := by decide
  have first : (lines source)[1]? = some comment := by decide
  have second : (lines source)[2]? = some block := by decide
  have checked : (Operator.code block).all
      (fun c => !Bracket.isOpening c && !Bracket.isClosing c) = true := by decide
  obtain ⟨terminated, brackets, calls, commas, operators⟩ :=
    (keeps_comment_lines {} clean second).2 (by decide)
  refine ⟨clean, first, second, (keeps_comment_lines {} clean first).1 (by decide), ?_, operators⟩
  simp only [List.forall_mem_cons]
  exact ⟨terminated, brackets fun c hc => by simpa using List.all_eq_true.mp checked c hc,
    calls (by decide), commas (by decide), List.forall_mem_nil _⟩

/-- A closed block comment is changed by each of the four other passes. -/
theorem block_comment_spaced :
    let source := "/* [a] + f (x,y) */".toList
    mark ∉ source ∧ (lines source)[0]? = some source ∧
      (∃ inner, source = "/*".toList ++ inner ++ "*/".toList ∧
        occursIn "*/".toList (inner ++ ['*']) = false) ∧
      Pass.operators.apply {} source = .ok "/ * [a] + f (x,y) * /".toList ∧
      Pass.brackets.apply {} source = .ok "/* [ a ] + f (x,y) */".toList ∧
      Pass.calls.apply {} source = .ok "/* [a] + f(x,y) */".toList ∧
      Pass.commas.apply {} source = .ok "/* [a] + f (x, y) */".toList ∧
      ∀ p ∈ [Pass.operators, .brackets, .calls, .commas], ¬p.Keeps {} source 0 source := by
  intro source
  have operators : Pass.operators.apply {} source = .ok "/ * [a] + f (x,y) * /".toList := by decide
  have brackets : Pass.brackets.apply {} source = .ok "/* [ a ] + f (x,y) */".toList := by decide
  have calls : Pass.calls.apply {} source = .ok "/* [a] + f(x,y) */".toList := by decide
  have commas : Pass.commas.apply {} source = .ok "/* [a] + f (x, y) */".toList := by decide
  have changed {p : Pass} {u : Text} (made : p.apply {} source = .ok u)
      (other : (lines u)[0]? ≠ some source) : ¬p.Keeps {} source 0 source := by
    rintro ⟨t, ht, same⟩
    rw [made] at ht
    cases ht
    exact other same
  refine ⟨by decide, by decide, ⟨" [a] + f (x,y) ".toList, by decide, by decide⟩, operators,
    brackets, calls, commas, ?_⟩
  simp only [List.forall_mem_cons]
  exact ⟨changed operators (by decide), changed brackets (by decide), changed calls (by decide),
    changed commas (by decide), List.forall_mem_nil _⟩

end Pass
end MotionExpr
