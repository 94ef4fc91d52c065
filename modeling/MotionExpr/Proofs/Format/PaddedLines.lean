import MotionExpr.Proofs.Format.SeemlyCode
import MotionExpr.Proofs.Format.GapPasses
import MotionExpr.Proofs.Format.OnType
import MotionExpr.Proofs.Format.Terminated

/-!
Brackets in formatted text. Masked again behind each pass, the code of a line is what the pass
made of it, so the scan for padded pairs is carried from the pass for brackets to the one for
semicolons. The pass for quotes is left out: where it changes what is a literal, other brackets
are code than before. Lines that are cut are not looked at.
-/

namespace MotionExpr

open Text Literal

namespace Line

theorem mask_body (line : Text) :
    (mask line).1 = (splitIndent line).1 ++ (mask (splitIndent line).2).1 := by
  have whole := mask_indented (@isBlank_of_mem_indent line) (splitIndent line).2
  rwa [splitIndent_append] at whole

/-- What a transform makes of each line is so of each line of the text it makes. -/
theorem forall_mapLines {P : Text → Prop} {f : Text → Except Literal.Fault Text} {t : Text}
    (h : ∀ l ∈ lines t, ∃ e, f l = .ok e ∧ '\n' ∉ e ∧ P e) :
    ∃ u, mapLines f t = .ok u ∧ ∀ l ∈ lines u, P l := by
  obtain ⟨u, hu, related⟩ := lines_of_mapLines (R := fun _ e => P e) h
  refine ⟨u, hu, fun l hl => ?_⟩
  obtain ⟨row, hrow, rfl⟩ := List.mem_iff_getElem.mp hl
  exact List.Forall₂.get related (related.length_eq ▸ hrow) hrow

end Line

namespace Bracket

/-- A line in whose code the scan finds nothing amiss. -/
structure SeemlyLine (line : Text) : Prop where
  unmarked : mark ∉ line
  code : SeemlyFrom [] [] (mask line).1

/-- A pass over code makes a seemly line if what it makes of the masked code is seemly. -/
theorem seemlyLine_mapCode {f : Text → Text} (hf : Regaps f) {line : Text} (clean : mark ∉ line)
    (onLine : '\n' ∉ line) (made : SeemlyFrom [] [] (f (mask (splitIndent line).2).1)) :
    ∃ e, Line.mapCode f line = .ok e ∧ '\n' ∉ e ∧ SeemlyLine e := by
  obtain ⟨e, he, unmarked, onLine', code⟩ := Line.mask_mapCode hf clean onLine
  refine ⟨e, he, onLine', unmarked, ?_⟩
  rw [code, seemlyFrom_indented Line.isBlank_of_mem_indent]
  exact seemlyFrom_tidy _ made

theorem SeemlyLine.mapCode {f : Text → Text} (hf : Regaps f)
    (kept : ∀ {t : Text}, SeemlyFrom [] [] t → SeemlyFrom [] [] (f t)) {line : Text}
    (h : SeemlyLine line) (onLine : '\n' ∉ line) :
    ∃ e, Line.mapCode f line = .ok e ∧ '\n' ∉ e ∧ SeemlyLine e := by
  have code := h.code
  rw [Line.mask_body, seemlyFrom_indented Line.isBlank_of_mem_indent] at code
  exact seemlyLine_mapCode hf h.unmarked onLine (kept code)

end Bracket

namespace Semicolon

/-- Text behind code begins with a blank or as a comment does. -/
theorem Tail.head {ps : List Piece} (h : Tail ps) :
    ∀ c ∈ (ps.flatMap Piece.text).head?, isBlank c = true ∨ c = '/' := by
  intro c hc
  cases h with
  | blanks hb =>
      rw [flatMap_text_map_code] at hc
      exact .inl (hb c (List.mem_of_mem_head? hc))
  | @comment b t hb ht =>
      rw [List.flatMap_append, flatMap_text_map_code, List.flatMap_singleton] at hc
      cases b with
      | nil =>
          obtain ⟨r, rfl⟩ := List.isPrefixOf_iff_prefix.mp ht
          exact .inr (Option.some.inj hc).symm
      | cons d b =>
          obtain rfl : d = c := Option.some.inj hc
          exact .inl (isBlank_of_isSpaceOrTab (hb d (List.mem_cons_self ..)))

theorem isCalm_of_isBlank {c : Char} (h : isBlank c = true) (hc : c ≠ '\n') : isCalm c = true := by
  have notQuote : Token.isQuote c = false := by
    refine eq_false_of_ne_true fun quote => ?_
    rw [(Token.plain_of_isQuote quote).1] at h
    cases h
  have notBackslash : c ≠ '\\' := by
    rintro rfl
    cases h
  simp [isCalm, notQuote, notBackslash, hc]

/-- With the semicolon, a body is read as before in front of it and behind it. -/
theorem pieces_terminated {t : Text} (ht : '\n' ∉ t) {as rest : List Piece} {b : Text}
    (h : pieces t = as ++ (b.map Piece.code ++ rest)) (closes : ∀ c ∈ b, closesLine c = true)
    (tail : Tail rest)
    (atEnd : rest = [] → ∀ qs u, pieces t = qs ++ [.literal u] → ¬ "//".toList.isPrefixOf u = true) :
    pieces (as.flatMap Piece.text ++ ';' :: (b ++ rest.flatMap Piece.text)) =
      as ++ .code ';' :: (b.map Piece.code ++ rest) := by
  have read : IsRead (as ++ .code ';' :: (b.map Piece.code ++ rest)) := by
    refine @IsRead.exchange as (b.map .code ++ rest) [] [';'] (List.forall_mem_nil _)
      (List.forall_mem_singleton.mpr rfl) (fun _ => .inr fun c hc => ?_)
      (fun _ some => absurd rfl some) (fun u last comment none _ => ?_) ?_ (h ▸ isRead_pieces t)
    · have notNewline : c ≠ '\n' := by
        rintro rfl
        rw [← flatMap_text_pieces t, h, List.flatMap_append] at ht
        exact ht (List.mem_append_right _ (List.mem_of_mem_head? hc))
      rw [List.flatMap_append, flatMap_text_map_code] at hc
      cases b with
      | nil =>
          rcases tail.head c hc with blank | rfl
          · exact isCalm_of_isBlank blank notNewline
          · rfl
      | cons d b =>
          obtain rfl : d = c := Option.some.inj hc
          have here := closes d (List.mem_cons_self ..)
          rw [closesLine, Bool.or_eq_true, beq_iff_eq] at here
          rcases here with blank | rfl
          · exact isCalm_of_isBlank blank notNewline
          · rfl
    · obtain ⟨empty, none⟩ := List.append_eq_nil_iff.mp none
      obtain ⟨qs, hqs⟩ := List.getLast?_eq_some_iff.mp last
      refine absurd comment (atEnd none qs u ?_)
      rw [h, empty, none, hqs, List.append_nil, List.append_nil]
    · rwa [List.map_nil, List.nil_append, ← h, flatMap_text_pieces]
  rwa [IsRead, List.flatMap_append, List.flatMap_cons, List.flatMap_append,
    flatMap_text_map_code] at read

end Semicolon

namespace Bracket

open Semicolon

/-- The pass on a body, masked. -/
theorem mask_terminateBody {t : Text} (front : Unindented t) (clean : mark ∉ t) (ht : '\n' ∉ t) :
    ∃ e, terminateLine t = .ok e ∧ '\n' ∉ e ∧ Terminated (mask t).1 (mask e).1 := by
  have unmarked := unmarked_pieces clean
  cases hskip : skips t with
  | true => exact ⟨t, terminateLine_of_skips front hskip, ht, .same⟩
  | false =>
      cases hu : terminate? (numbered 0 (bodyCode (pieces t))) with
      | none => exact ⟨t, terminateLine_of_none front ht unmarked hu, ht, .same⟩
      | some u =>
          obtain ⟨as, b, rest, hpieces, -, -, parted, tail, atEnd, hrun⟩ :=
            terminateLine_of_some front ht unmarked hskip hu
          refine ⟨_, hrun, ?_, ?_⟩
          · rw [← flatMap_text_pieces t, hpieces] at ht
            simpa [flatMap_text_map_code] using ht
          · have plain : IsPlain (numbered (literals as).length rest) :=
              isPlain_numbered fun c hc => plain_of_isBlank (tail.blank c hc)
            have whole : numbered 0 (as ++ (b.map Piece.code ++ rest)) =
                numbered 0 as ++ (b ++ numbered (literals as).length rest) := by
              rw [numbered_append, Nat.zero_add, numbered_map_code_append]
            have added : numbered 0 (as ++ .code ';' :: (b.map Piece.code ++ rest)) =
                numbered 0 as ++ ';' :: (b ++ numbered (literals as).length rest) := by
              rw [numbered_append, Nat.zero_add, numbered, numbered_map_code_append]
            rw [mask, mask, pieces_terminated ht hpieces parted.closes tail atEnd, hpieces, whole,
              added]
            exact @Terminated.added _ [] _ _ _ rfl parted plain

/-- A line whose pairs are padded stays so, but for the semicolon in front of a brace. -/
theorem padded_terminateLine {line : Text} (h : SeemlyLine line) (onLine : '\n' ∉ line) :
    ∃ e, terminateLine line = .ok e ∧ '\n' ∉ e ∧ Padded mayFollow mayEnd (mask e).1 := by
  have padded := Padded.of_seemlyFrom h.code
  have clean := h.unmarked
  have front : Unindented (splitIndent line).2 := unindented_trimStart line
  have indent := @Line.isBlank_of_mem_indent line
  rw [Line.mask_body] at padded
  rw [← splitIndent_append line, List.mem_append, not_or] at clean onLine
  obtain ⟨e, he, onLine', terminated⟩ := mask_terminateBody front clean.2 onLine.2
  refine ⟨(splitIndent line).1 ++ e, ?_, List.not_mem_append onLine.1 onLine', ?_⟩
  · conv => lhs; rw [← splitIndent_append line]
    rw [Line.terminateLine_indented indent front, he]
    rfl
  · rw [mask_indented indent]
    exact padded.terminated (terminated.indented _)

end Bracket

namespace FormatSettings

open Formatter MotionExpr.Bracket

/-- What an enabled pass makes of each line is so of the lines that the run goes on with. -/
theorem forall_lines_of_run {s : FormatSettings} {p : Pass} {ps : List Pass}
    (hplan : s.planOf p = s.regular.plan p) (hon : p.enabled s.regular = true)
    {f : Text → Except Literal.Fault Text} (hline : p.onLine? s.regular = some f) {P : Text → Prop}
    {t u : Text} (h : ∀ l ∈ lines t, ∃ e, f l = .ok e ∧ '\n' ∉ e ∧ P e)
    (run : runPasses s.planOf (p :: ps) t = .ok u) :
    ∃ v, runPasses s.planOf ps v = .ok u ∧ ∀ l ∈ lines v, P l := by
  obtain ⟨v, hv, rest⟩ := (runPasses_on_iff ps hplan hon).mp run
  obtain ⟨w, hw, all⟩ := Line.forall_mapLines h
  rw [Pass.apply_eq_mapLines hline, hw] at hv
  obtain rfl : w = v := Except.ok.inj hv
  exact ⟨w, rest, all⟩

variable {s : FormatSettings}

/-- A pass over code that keeps lines seemly. -/
theorem seemly_of_run {p : Pass} {ps : List Pass} (hplan : s.planOf p = s.regular.plan p)
    (hon : p.enabled s.regular = true) {f : Text → Text}
    (hline : p.onLine? s.regular = some (Line.mapCode f)) (hf : Regaps f)
    (kept : ∀ {t : Text}, SeemlyFrom [] [] t → SeemlyFrom [] [] (f t)) {t u : Text}
    (seemly : ∀ l ∈ lines t, SeemlyLine l) (run : runPasses s.planOf (p :: ps) t = .ok u) :
    ∃ v, runPasses s.planOf ps v = .ok u ∧ ∀ l ∈ lines v, SeemlyLine l :=
  forall_lines_of_run hplan hon hline
    (fun l hl => (seemly l hl).mapCode hf kept (not_newline_of_mem_lines hl)) run

/-- The passes from the one for brackets to the one for semicolons leave the pairs of each line
padded. -/
theorem padded_of_run (on : s.bracketSpacing.isTruthy = true) {t u : Text} (clean : mark ∉ t)
    (run : runPasses s.planOf (spacing ++ [.semicolons]) t = .ok u) :
    ∀ l ∈ lines u, Padded mayFollow mayEnd (mask l).1 := by
  obtain ⟨a, run, spaced⟩ := forall_lines_of_run (p := .brackets) (P := SeemlyLine) rfl on rfl
    (fun l hl => seemlyLine_mapCode Bracket.regaps_space (fun hm => clean (mem_of_mem_lines hl hm))
      (not_newline_of_mem_lines hl) (seemlyFrom_space _)) run
  obtain ⟨b, run, called⟩ :=
    seemly_of_run (p := .calls) rfl rfl rfl Call.regaps_tighten seemlyFrom_calls spaced run
  obtain ⟨c, run, operated⟩ :=
    seemly_of_run (p := .operators) rfl rfl rfl Operator.regaps_space seemlyFrom_operators called run
  obtain ⟨d, run, listed⟩ :=
    seemly_of_run (p := .commas) rfl rfl rfl Comma.regaps_space seemlyFrom_commas operated run
  cases hon : Pass.semicolons.enabled s.regular with
  | true =>
      obtain ⟨e, run, padded⟩ := forall_lines_of_run (p := .semicolons) rfl hon rfl
        (fun l hl => padded_terminateLine (listed l hl) (not_newline_of_mem_lines hl)) run
      cases run
      exact padded
  | false =>
      have skipped : runPasses s.planOf [.semicolons] d = .ok d := runPasses_off [] rfl hon d
      obtain rfl : d = u := Except.ok.inj (skipped.symm.trans run)
      exact fun l hl => (Padded.of_seemlyFrom (listed l hl).code).mono fun c t precedes =>
        mayEnd_of_mayPrecede precedes c

/-- Nothing comes behind a run but the pass for quotes, line by line, and an empty line. -/
theorem lines_of_all (off : s.lineLimit.IsOff) {t u : Text}
    (run : runPasses s.planOf Pass.all t = .ok u) :
    ∃ v, runPasses s.planOf (Pass.front ++ (spacing ++ [.semicolons])) t = .ok v ∧
      ∀ (row : Nat) (l : Text), (lines u)[row]? = some l →
        l = [] ∨ ∃ prior, (lines v)[row]? = some prior := by
  obtain ⟨w, hw, kept⟩ := runPasses_all off run
  have parts : Pass.front ++ Pass.byLine =
      (Pass.front ++ (spacing ++ [.semicolons])) ++ [.quotes] := rfl
  rw [parts, runPasses_append] at hw
  obtain ⟨v, hv, quoted⟩ := hw
  obtain rfl : Quote.restyle s.regular.quoteStyle v = w := Except.ok.inj quoted
  refine ⟨v, hv, fun row l hl => ?_⟩
  rcases (kept row l).2 hl with hl | rfl
  · rw [Quote.lines_restyle, List.getElem?_map, Option.map_eq_some_iff] at hl
    obtain ⟨prior, hprior, -⟩ := hl
    exact .inr ⟨prior, hprior⟩
  · exact .inl rfl

end FormatSettings

namespace Formatter

open MotionExpr.Bracket

/-- Without wrapping, the pairs of every line are padded that the pass for quotes leaves the code
of. -/
theorem format_pads_brackets {s : FormatSettings} {plan : Plan} (hs : s.plan = .ok plan)
    (off : s.lineLimit.IsOff) (on : s.bracketSpacing.isTruthy = true) {source : Text}
    (clean : mark ∉ source) (noError : (format { plan := plan } source).errors = []) :
    ∃ u, runPasses plan (Pass.front ++ (spacing ++ [.semicolons])) source = .ok u ∧
      ∀ (row : Nat) (line : Text), (lines (format { plan := plan } source).text)[row]? = some line →
        (∀ prior, (lines u)[row]? = some prior → (mask prior).1 = (mask line).1) →
          Padded mayFollow mayEnd (mask line).1 := by
  obtain rfl := FormatSettings.eq_planOf hs
  obtain ⟨w, hw⟩ := (errors_eq_nil_iff _ _).mp noError
  have formatted : (format { plan := s.planOf } source).text = w := by
    rw [format, formatWith, hw]
  obtain ⟨u, hu, behind⟩ := FormatSettings.lines_of_all off hw
  refine ⟨u, hu, fun row line hline unchanged => ?_⟩
  obtain ⟨v, hv, run⟩ := (runPasses_append ..).mp hu
  have unmarked : mark ∉ v := (runPasses_preserves
    (fun p f t u hf hm hr => FormatSettings.planOf_preserves hf hm hr) clean hv).unmarked clean
  rw [formatted] at hline
  rcases behind row line hline with rfl | ⟨prior, hprior⟩
  · intro front inside back opening closing pair
    exact absurd pair.whole (by simp [mask, pieces, piecesFrom, numbered])
  · rw [← unchanged prior hprior]
    exact FormatSettings.padded_of_run on unmarked run prior (List.mem_of_getElem? hprior)

theorem format_pads_brackets_nested :
    let source := "x = [f(1),{a:[2]}]".toList
    let plan := FormatOptions.plan { maxLineLength := 0 }
    (FormatSettings.ofOptions { maxLineLength := 0 }).plan = .ok plan ∧ mark ∉ source ∧
      (format { plan := plan } source).errors = [] ∧
      Padded mayFollow mayEnd (mask "x = [ f(1), { a:[ 2 ] } ];".toList).1 := by
  intro source plan
  have clean : mark ∉ source := by decide
  have noError : (format { plan := plan } source).errors = [] := rfl
  obtain ⟨u, hu, padded⟩ := format_pads_brackets
    (FormatSettings.plan_ofOptions { maxLineLength := 0 }) (Int.le_refl 0) rfl clean noError
  obtain rfl : "x = [ f(1), { a:[ 2 ] } ];".toList = u := Except.ok.inj hu
  refine ⟨FormatSettings.plan_ofOptions _, clean, noError, padded 0 _ rfl fun prior hprior => ?_⟩
  cases hprior
  rfl

/-- No blank is put, or left, between a bracket and a sign or comma behind it, nor between an
update, a negation or a semicolon and a bracket behind it. Where a string takes other quotes, what
it held may be code. -/
theorem format_leaves_brackets_bare :
    let leavesBare (source line : String) :=
      lines (format { plan := FormatOptions.plan { maxLineLength := 0 } } source.toList).text =
          [line.toList, []] ∧
        ¬ Padded isBlank (fun _ t => t.head?.any isBlank) (mask line.toList).1
    leavesBare "x = [-1]" "x = [-1 ];" ∧ leavesBare "x = [,1]" "x = [, 1 ];" ∧
      leavesBare "x = [i++]" "x = [ i++];" ∧ leavesBare "x = [a!]" "x = [ a!];" ∧
      leavesBare "if (x) \x7by = !\x7d" "if (x) \x7b y = !;\x7d" ∧
      leavesBare "x = ['a\"b\x7bc\x7d']" "x = [ \"a\"b\x7bc\x7d\" ];" := by
  intro leavesBare
  have array {code inside : Text} (whole : code = "x = ".toList ++ '[' :: (inside ++ [']', ';']))
      (matched : isBalanced 0 inside = true) : Pair code "x = ".toList inside [';'] '[' ']' :=
    ⟨whole, matched, .inr ⟨rfl, rfl, rfl⟩⟩
  have braces {code front inside back : Text}
      (whole : code = front ++ '\x7b' :: (inside ++ '\x7d' :: back))
      (matched : isBalanced 0 inside = true) : Pair code front inside back '\x7b' '\x7d' :=
    ⟨whole, matched, .inl ⟨rfl, rfl⟩⟩
  refine ⟨⟨rfl, fun padded => ?_⟩, ⟨rfl, fun padded => ?_⟩, ⟨rfl, fun padded => ?_⟩,
    ⟨rfl, fun padded => ?_⟩, ⟨rfl, fun padded => ?_⟩, rfl, fun padded => ?_⟩
  · have ends := padded _ "-1 ".toList _ _ _ (array rfl rfl) nofun
    exact absurd (ends.1 '-' rfl) (by decide)
  · have ends := padded _ ", 1 ".toList _ _ _ (array rfl rfl) nofun
    exact absurd (ends.1 ',' rfl) (by decide)
  · have ends := padded _ " i++".toList _ _ _ (array rfl rfl) nofun
    exact absurd ends.2 (by decide)
  · have ends := padded _ " a!".toList _ _ _ (array rfl rfl) nofun
    exact absurd ends.2 (by decide)
  · have ends := padded "if (x) ".toList " y = !;".toList [] _ _ (braces rfl rfl) nofun
    exact absurd ends.2 (by decide)
  · have ends := padded ("x = [ ".toList ++ placeholder 0 ++ ['b']) ['c'] "\" ];".toList _ _
      (braces rfl rfl) nofun
    exact absurd ends.2 (by decide)

end Formatter

end MotionExpr
