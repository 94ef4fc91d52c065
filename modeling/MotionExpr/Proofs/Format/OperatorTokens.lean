import MotionExpr.Format.Pass
import MotionExpr.Proofs.Format.OperatorJoins
import MotionExpr.Proofs.Format.SemicolonSites
import MotionExpr.Proofs.Token.Rendering

/-!
The tokens of a text whose operators are spaced. The result of the pass falls into
the pieces of the line again, since a slash is put in front of a space or an equality
sign and so begins no comment, and nothing comes behind a comment. So the tokens of
a line stay just if the joins of its masked code do.
-/

namespace MotionExpr

open Text Literal
open Token hiding mark

/-! Slashes. -/

namespace Operator

/-- A slash has a space or an equality sign behind it. -/
def Bounded (a b : Char) : Prop := a = '/' → b = ' ' ∨ b = '='

theorem isChain_of_not_mem {t : Text} (h : '/' ∉ t) : List.IsChain Bounded t := by
  induction t with
  | nil => exact .nil
  | cons c r ih =>
      rw [List.mem_cons, not_or] at h
      exact List.isChain_cons.mpr ⟨fun _ _ slash => absurd slash.symm h.1, ih h.2⟩

/-- Rules that keep the first character and put no slash anywhere leave slashes bounded. -/
theorem isChain_of_finds {rule : Text.Rule} {Found : (passed found rest text : Text) → Prop}
    (finds : rule.Finds Found)
    (same : ∀ passed found rest text, Found passed found rest text →
      text ≠ [] ∧ text.head? = (found ++ rest).head?)
    (free : ∀ passed found rest text, Found passed found rest text → '/' ∉ text)
    (passed : Text) {t : Text} (h : List.IsChain Bounded t) :
    List.IsChain Bounded (substituteFrom rule passed 0 t) := by
  induction passed, t using finds.induction with
  | nil passed => exact .nil
  | pass passed c r _ ih =>
      obtain ⟨first, rest⟩ := List.isChain_cons.mp h
      refine List.isChain_cons.mpr ⟨fun d hd => first d ?_, ih rest⟩
      rwa [finds.head? same] at hd
  | found passed found rest text hf ih =>
      have noSlash := free passed found rest text hf
      refine List.isChain_append.mpr ⟨isChain_of_not_mem noSlash, ih h.right_of_append, ?_⟩
      rintro c hc d - rfl
      exact absurd (List.mem_of_getLast? hc) noSlash

theorem isChain_placed {op : Text} (hop : op ∈ all) (passed : Text) (bare : Bool) :
    List.IsChain Bounded (placed passed op bare) ∧ (placed passed op bare).getLast? ≠ some '/' := by
  obtain ⟨front, back, heq, hfront, hback, outside⟩ := placed_eq_append passed op bare
  by_cases slash : '/' ∈ op
  · have checked : all.all (fun op => !op.contains '/' || op == ['/'] || op == ['/', '=']) = true := by
      decide
    have here : op = ['/'] ∨ op = ['/', '='] := by
      simpa [slash] using List.all_eq_true.mp checked op hop
    have spaced (hsign : isSign op = false) (hupdate : isUpdate op = false) :
        placed passed op bare = ' ' :: op ++ [' '] := by
      obtain ⟨rfl, rfl⟩ : front = [' '] ∧ back = [' '] := by simpa [hsign, hupdate] using outside
      exact heq
    rcases here with rfl | rfl <;> rw [spaced (by decide) (by decide)] <;>
      exact ⟨by simp [Bounded], by decide⟩
  · have free : '/' ∉ placed passed op bare := by
      rw [heq]
      rcases hfront with rfl | rfl <;> rcases hback with rfl | rfl <;> simp [slash]
    exact ⟨isChain_of_not_mem free, fun last => free (List.mem_of_getLast? last)⟩

theorem isChain_respace (t : Text) : List.IsChain Bounded (substitute respace t) := by
  rw [substitute]
  generalize [] = passed
  induction passed, t using finds_respace.induction with
  | nil passed => exact .nil
  | pass passed c r hc ih =>
      refine List.isChain_cons.mpr ⟨?_, ih⟩
      rintro d - rfl
      exact absurd (operator?_of_respace_none hc) (operator?_ne_none (by decide) r)
  | found passed found rest text h ih =>
      cases h with
      | @intro gap op behind _ bare _ _ hop _ =>
          obtain ⟨chain, last⟩ := isChain_placed (of_operator? hop).1 passed bare
          refine List.isChain_append.mpr ⟨chain, ih, ?_⟩
          rintro c hc d - rfl
          exact absurd hc last

theorem isChain_space (t : Text) : List.IsChain Bounded (space t) := by
  rw [space]
  refine isChain_of_finds finds_negation (fun _ _ _ _ => Tightened.head?) ?_ []
    (isChain_of_finds finds_squeeze (fun _ _ _ _ => Squeezed.head?) ?_ [] (isChain_respace t))
  · rintro passed _ rest _ ⟨-, -, -⟩
    decide
  · rintro passed _ rest _ ⟨-, -⟩
    decide

end Operator

/-! Pieces read back. -/

namespace Literal

/-- Pieces among which slashes are bounded and a comment comes last are those of their text. -/
theorem pieces_flatMap_text {n : Nat} {qs : List Piece}
    (chain : List.IsChain Operator.Bounded (numbered n qs))
    (plain : ∀ c, .code c ∈ qs → isQuote c = false)
    (whole : ∀ t, .literal t ∈ qs → pieces t = [.literal t])
    (last : ∀ front t back, qs = front ++ .literal t :: back →
      "//".toList.isPrefixOf t = true → back = []) :
    pieces (qs.flatMap Piece.text) = qs := by
  induction qs generalizing n with
  | nil => rfl
  | cons q qs ih =>
      have rest {m : Nat} (chain : List.IsChain Operator.Bounded (numbered m qs)) :
          pieces (qs.flatMap Piece.text) = qs :=
        ih chain (fun c hc => plain c (List.mem_cons_of_mem _ hc))
          (fun t ht => whole t (List.mem_cons_of_mem _ ht))
          fun front t back hqs => last (q :: front) t back (by rw [hqs]; rfl)
      cases q with
      | literal t =>
          have alone := whole t (List.mem_cons_self ..)
          rw [List.flatMap_cons, Piece.text, Atom.pieces_literal_append alone, rest chain.right_of_append]
          intro comment
          rw [last [] t qs rfl comment]
          rfl
      | code c =>
          obtain ⟨first, behind⟩ := List.isChain_cons.mp chain
          have notComment : startsComment (c :: qs.flatMap Piece.text) = false := by
            refine eq_false_of_ne_true fun comment => ?_
            obtain ⟨rfl, s, hs⟩ := (startsComment_iff c _).mp comment
            cases qs with
            | nil => cases hs
            | cons q qs =>
                cases q with
                | literal t => exact absurd (first mark rfl rfl) (by decide)
                | code d =>
                    obtain rfl : d = '/' := (List.cons_eq_cons.mp hs).1
                    exact absurd (first '/' rfl rfl) (by decide)
          rw [List.flatMap_cons, Piece.text, List.singleton_append, pieces_cons,
            length?_none_of_plain (plain c (List.mem_cons_self ..)) notComment, rest behind]

end Literal

/-! One line. -/

namespace Operator

theorem getLast?_space {t : Text} (h : t.getLast? = some mark) : (space t).getLast? = some mark := by
  rw [space]
  refine finds_negation.getLast? ?_ [] (finds_squeeze.getLast? ?_ [] (finds_respace.getLast? ?_ [] h))
  · exact fun _ _ _ _ found => found.respaced.unmarked
  · exact fun _ _ _ _ found => found.respaced.unmarked
  · exact fun _ _ _ _ found => found.respaced.unmarked

theorem isInfix_tidy (body t : Text) : Line.tidy body t <:+: t := by
  rw [Line.tidy]
  split
  · exact (List.dropWhile_suffix _).isInfix
  · exact (isPrefix_dropEndWhile _ _).isInfix.trans (List.dropWhile_suffix _).isInfix

theorem isChain_tidy_space (body t : Text) : List.IsChain Bounded (Line.tidy body (space t)) := by
  obtain ⟨front, back, whole⟩ := isInfix_tidy body (space t)
  have chain := isChain_space t
  rw [← whole] at chain
  exact chain.left_of_append.right_of_append

theorem getLast?_tidy (body : Text) {t : Text} (h : t.getLast? = some mark) :
    (Line.tidy body t).getLast? = some mark := by
  have start : (t.dropWhile isSpaceOrTab).getLast? = some mark := by
    rw [← List.takeWhile_append_dropWhile (p := isSpaceOrTab) (l := t), List.getLast?_append] at h
    cases hd : (t.dropWhile isSpaceOrTab).getLast? with
    | some c => rwa [hd] at h
    | none =>
        rw [hd] at h
        exact absurd (isSpaceOrTab_of_mem_takeWhile mark (List.mem_of_getLast? h)) (by decide)
  rw [Line.tidy]
  split
  · exact start
  · rw [dropEndWhile_of_getLast? (by rw [start]; decide), start]

theorem joins_tidy (body t : Text) : joins .nothing (Line.tidy body t) = joins .nothing t := by
  have start (u : Text) : joins .nothing (u.dropWhile isSpaceOrTab) = joins .nothing u := by
    conv => rhs; rw [← List.takeWhile_append_dropWhile (p := isSpaceOrTab) (l := u)]
    rw [joins_blanks fun c hc => isBlank_of_isSpaceOrTab (isSpaceOrTab_of_mem_takeWhile c hc), ite_self]
  have stop (u : Text) : joins .nothing (dropEndWhile isSpaceOrTab u) = joins .nothing u := by
    obtain ⟨rest, whole, blank⟩ := dropEndWhile_spec isSpaceOrTab u
    have none (q : Reach) : joins q rest = [] := by
      have all := joins_blanks (fun c hc => isBlank_of_isSpaceOrTab (blank c hc)) q []
      rwa [List.append_nil, joins, joins, ite_self] at all
    conv => rhs; rw [← whole, joins_append, none, List.append_nil]
  rw [Line.tidy]
  split
  · exact start t
  · rw [stop, start]

/-- The masked code of a line. -/
def code (line : Text) : Text := (mask (splitIndent line).2).1

theorem not_newline_space {t : Text} (h : '\n' ∉ t) : '\n' ∉ space t := by
  have none : t.filter (· == '\n') = [] := by
    rw [List.filter_eq_nil_iff]
    rintro c hc newline
    exact h (beq_iff_eq.mp newline ▸ hc)
  intro hm
  have kept : '\n' ∈ (space t).filter (· == '\n') := List.mem_filter.mpr ⟨hm, by decide⟩
  rw [filter_space, none] at kept
  · cases kept
  · intro c hc
    rw [beq_eq_false_iff_ne]
    rintro rfl
    cases hc

section Body

variable {body : Text} (hn : '\n' ∉ body) (plain : ∀ c, .code c ∈ pieces body → isQuote c = false)
  {qs : List Piece} (spaced : Line.tidy body (space (mask body).1) = numbered 0 qs)
  (same : solid qs = solid (pieces body))

include same in
theorem isGap_or_mem_pieces {q : Piece} (hq : q ∈ qs) : q.isGap = true ∨ q ∈ pieces body := by
  cases hgap : q.isGap with
  | true => exact .inl rfl
  | false =>
      have kept : q ∈ solid qs := List.mem_filter.mpr ⟨hq, by simp [hgap]⟩
      rw [same] at kept
      exact .inr (List.mem_of_mem_filter kept)

include plain same in
theorem plain_of_solid : ∀ c, .code c ∈ qs → isQuote c = false := by
  intro c hc
  rcases isGap_or_mem_pieces same hc with gap | kept
  · refine eq_false_of_ne_true fun quote => ?_
    rw [Piece.isGap, (plain_of_isQuote quote).1] at gap
    cases gap
  · exact plain c kept

include hn spaced same in
/-- Nothing comes behind a comment. -/
theorem comment_stays_last (front : List Piece) (t : Text) (back : List Piece)
    (hqs : qs = front ++ .literal t :: back) (comment : "//".toList.isPrefixOf t = true) :
    back = [] := by
  have kept : solid (pieces body) = solid front ++ (.literal t :: solid back) := by
    rw [← same, hqs, solid_append]
    rfl
  obtain ⟨before, others, hbefore, -, hothers⟩ := List.filter_eq_append_iff.mp kept
  obtain ⟨between, behind, rfl, -, -, hbehind⟩ := List.filter_eq_cons_iff.mp hothers
  rw [← List.append_assoc] at hbefore
  obtain rfl := (of_pieces_append_literal hn hbefore).2 comment
  have first : (mask body).1.getLast? = some mark := by
    rw [mask, getLast?_numbered, hbefore, List.getLast?_concat]
    rfl
  have ends := getLast?_tidy body (getLast?_space first)
  rw [spaced, getLast?_numbered, hqs] at ends
  rcases List.eq_nil_or_concat back with none | ⟨others, q, rfl⟩
  · exact none
  · have gap : q.isGap = true := by
      have dropped := List.filter_eq_nil_iff.mp hbehind.symm q (by simp)
      simpa using dropped
    rw [List.concat_eq_append, ← List.cons_append, ← List.append_assoc, List.getLast?_concat] at ends
    cases q with
    | literal u => cases gap
    | code c =>
        obtain rfl : c = mark := Option.some.inj ends
        exact absurd gap (by decide)

include hn plain spaced same in
theorem pieces_spaced : pieces (qs.flatMap Piece.text) = qs := by
  refine pieces_flatMap_text (n := 0) ?_ (plain_of_solid plain same) (fun t ht => ?_)
    (comment_stays_last hn spaced same)
  · rw [← spaced]
    exact isChain_tidy_space body (mask body).1
  · obtain ⟨front, back, hp⟩ := List.append_of_mem
      ((isGap_or_mem_pieces same ht).resolve_left Bool.false_ne_true)
    exact (of_pieces_append_literal hn hp).1

include same in
theorem not_mem_spaced {c : Char} (hc : c ∉ body) (hcode : .code c ∉ qs) :
    c ∉ qs.flatMap Piece.text := by
  intro hm
  obtain ⟨q, hq, hin⟩ := List.mem_flatMap.mp hm
  cases q with
  | code d => exact hcode (List.mem_singleton.mp hin ▸ hq)
  | literal t =>
      have kept := (isGap_or_mem_pieces same hq).resolve_left Bool.false_ne_true
      refine hc ?_
      rw [← flatMap_text_pieces body]
      exact List.mem_flatMap.mpr ⟨_, kept, hin⟩

include hn spaced in
theorem not_newline_code : .code '\n' ∉ qs := by
  have absent (n : Nat) (ps : List Piece) : '\n' ∉ numbered n ps ↔ .code '\n' ∉ ps := by
    rw [← List.count_eq_zero, ← List.count_eq_zero, count_numbered (by decide) (by decide)]
  rw [← absent 0, ← spaced]
  have masked : '\n' ∉ (mask body).1 :=
    (absent 0 (pieces body)).mpr fun hm => hn (mem_of_code_mem_pieces hm)
  exact fun hm => not_newline_space masked ((isInfix_tidy body _).mem hm)

include hn plain spaced same in
/-- The tokens of a body stay just if the joins of its code do. -/
theorem spell_spaced_iff {p : Profile} (clean : mark ∉ body) :
    spell (lexemes p (qs.flatMap Piece.text)) = spell (lexemes p body) ↔
      openNegations (mask body).1 = 0 ∧ Fits (mask body).1 := by
  have again := pieces_spaced hn plain spaced same
  have masked : (mask (qs.flatMap Piece.text)).1 = Line.tidy body (space (mask body).1) := by
    rw [spaced, mask, again]
  have texts : (mask (qs.flatMap Piece.text)).2 = (mask body).2 := by
    rw [mask, mask, again, ← literals_solid, same, literals_solid]
  have unmarked := unmarked_of_solid_eq same (unmarked_pieces clean)
  rw [spell_eq_iff hn (not_mem_spaced same hn (not_newline_code hn spaced)) clean
    (not_mem_spaced same clean unmarked) plain (again.symm ▸ plain_of_solid plain same) texts, masked,
    joins_tidy, joins_space_iff]

end Body

/-- A line whose strings are closed comes back, and has its tokens just if the joins of its code
stay. -/
theorem mapCode_space {p : Profile} {line : Text} (hn : '\n' ∉ line) (clean : mark ∉ line)
    (closed : ∀ x ∈ spell (lexemes p line), x.1 = .string → isClosed x.2 = true) :
    ∃ u, Line.mapCode space line = .ok u ∧ '\n' ∉ u ∧
      (spell (lexemes p u) = spell (lexemes p line) ↔
        openNegations (code line) = 0 ∧ Fits (code line)) := by
  have parts := splitIndent_append line
  have blank : ∀ c ∈ (splitIndent line).1, Text.isBlank c = true :=
    fun c hc => List.all_eq_true.mp List.all_takeWhile c hc
  obtain ⟨qs, hu, same, ⟨empty, rfl⟩ | spaced⟩ := Line.exists_mapCode respaces_space clean
  · rw [empty] at parts
    rw [List.flatMap_nil, parts] at hu
    rw [code, empty]
    exact ⟨line, hu, hn, iff_of_true rfl ⟨rfl, List.forall_mem_nil _⟩⟩
  · have tokens : lexemes p line = lexemes p (splitIndent line).2 :=
      (congrArg (lexemes p) parts).symm.trans (lexemes_indented blank _)
    rw [← parts, List.mem_append, not_or] at hn clean
    rw [tokens] at closed ⊢
    have plain := (closed_iff_plain hn.2).mp closed
    refine ⟨_, hu, ?_, ?_⟩
    · rw [List.mem_append, not_or]
      exact ⟨hn.1, not_mem_spaced same hn.2 (not_newline_code hn.2 spaced)⟩
    · rw [lexemes_indented blank]
      exact spell_spaced_iff hn.2 plain spaced same clean.2

/-! All lines. -/

/-- Spacing operators never fails on a text without marks whose strings are closed, and it
keeps each token on its line, with its kind and its text, just if on every line there is
neither a gap between a negation and an equality sign nor an exposed operator in front of one. -/
theorem tokens_of_spaced_operators (p : Profile) (o : FormatOptions) {source : Text}
    (clean : mark ∉ source)
    (closed : ∀ t ∈ tokenize p source, t.kind = .string → isClosed t.text = true) :
    ∃ u, Pass.apply o .operators source = .ok u ∧
      ((tokenize p u).map Token.mark = (tokenize p source).map Token.mark ↔
        ∀ l ∈ lines source, openNegations (code l) = 0 ∧ Fits (code l)) := by
  have each : ∀ l ∈ lines source, ∃ u, Line.mapCode space l = .ok u ∧ '\n' ∉ u ∧
      (spell (lexemes p u) = spell (lexemes p l) ↔ openNegations (code l) = 0 ∧ Fits (code l)) := by
    intro l hl
    refine mapCode_space (not_newline_of_mem_lines hl) (fun hm => clean (mem_of_mem_lines hl hm)) ?_
    obtain ⟨row, hrow⟩ := List.mem_iff_getElem?.mp hl
    intro x hx
    rw [← map_spelling_scanLine (1 + row) 1] at hx
    obtain ⟨t, ht, rfl⟩ := List.mem_map.mp hx
    exact closed t (mem_tokenize_iff.mpr ⟨row, l, hrow, ht⟩)
  obtain ⟨u, hu, related⟩ := Line.lines_of_mapLines each
  refine ⟨u, hu, fun same l hl => ?_, fun kept => ?_⟩
  · obtain ⟨row, hrow⟩ := List.mem_iff_getElem?.mp hl
    obtain ⟨k, hk, iff⟩ := Line.getElem?_of_forall₂ related hrow
    exact iff.mp (spell_eq_of_map_mark same hk hrow)
  · refine map_mark_scanLines (List.forall₂_iff_get.mpr ⟨related.length_eq.symm, ?_⟩) 1
    exact fun row there here => (related.get here there).mpr (kept _ (List.get_mem ..))

theorem tokens_of_spaced_operators_mixed :
    let source := "if(a>=b&& ! c)x>>>=1e-3;\n\ty= s===\"! =\"?-x++:g=>g!==2 // a=>=b".toList
    mark ∉ source ∧
      (∀ t ∈ tokenize .standard source, t.kind = .string → isClosed t.text = true) ∧
      (∀ l ∈ lines source, openNegations (code l) = 0 ∧ Fits (code l)) ∧
      ∃ u, Pass.apply {} .operators source = .ok u ∧
        (tokenize .standard u).map Token.mark = (tokenize .standard source).map Token.mark := by
  intro source
  have clean : mark ∉ source := by decide
  have closed : ∀ t ∈ tokenize .standard source, t.kind = .string → isClosed t.text = true := by
    decide +kernel
  have fits : ∀ l ∈ lines source, openNegations (code l) = 0 ∧ Fits (code l) := by decide +kernel
  obtain ⟨u, hu, same⟩ := tokens_of_spaced_operators .standard {} clean closed
  exact ⟨clean, closed, fits, u, hu, same.mpr fits⟩

/-- An exposed operator in front of an equality sign: its last character was read with it. -/
theorem spaced_operators_part_tokens :
    let source := "a=>=b".toList
    mark ∉ source ∧
      (∀ t ∈ tokenize .standard source, t.kind = .string → isClosed t.text = true) ∧
      ∃ u, Pass.apply {} .operators source = .ok u ∧
        (tokenize .standard u).map Token.mark ≠ (tokenize .standard source).map Token.mark :=
  ⟨by decide, by decide +kernel, "a => = b".toList, rfl, by decide +kernel⟩

end Operator
end MotionExpr
