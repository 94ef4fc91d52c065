import MotionExpr.Proofs.Lint.Spans
import MotionExpr.Proofs.Token.Veiled

/-!
What literals say does not reach the findings. Every rule sees the tokens only with
their literals veiled, but for the one on endless loops, which reads the text of the
line of a loop keyword. The text of the line that a finding carries along is not
compared.
-/

namespace MotionExpr

open Token

/-! Checks pass over literals. -/

/-- A property of tokens that no literal has. -/
def Blind (q : Token → Bool) : Prop := ∀ t, isLiteral t.kind = true → q t = false

theorem blind_of_kind {q : Token → Bool} (kind : TokenKind) (hkind : isLiteral kind = false)
    (h : ∀ t, q t = true → t.kind = kind) : Blind q := by
  intro t literal
  rw [← Bool.not_eq_true]
  intro holds
  rw [h t holds, hkind] at literal
  cases literal

theorem blind_isKeyword (words : List Text) : Blind (·.isKeyword words) := by
  refine blind_of_kind .keyword rfl fun t ht => ?_
  simp only [isKeyword, Bool.and_eq_true, decide_eq_true_eq] at ht
  exact ht.1

theorem blind_isIdentifier : Blind isIdentifier :=
  blind_of_kind .identifier rfl fun _ ht => of_decide_eq_true ht

theorem blind_isPunctuation (c : Char) : Blind (·.isPunctuation c) := by
  refine blind_of_kind .punctuation rfl fun t ht => ?_
  simp only [isPunctuation, Bool.and_eq_true, decide_eq_true_eq] at ht
  exact ht.1

theorem Blind.and {q : Token → Bool} (h : Blind q) (f : Token → Bool) : Blind fun t => q t && f t :=
  fun t literal => Bool.and_eq_false_iff.mpr (.inl (h t literal))

theorem kind_veil (t : Token) : (veil t).kind = t.kind := by
  rw [veil]
  split <;> rfl

theorem Blind.veil {q : Token → Bool} (h : Blind q) (t : Token) : q (veil t) = q t := by
  cases literal : isLiteral t.kind with
  | true => rw [h t literal, h _ ((kind_veil t).symm ▸ literal)]
  | false => rw [veil_of_not_literal literal]

theorem Blind.veil_eq {q : Token → Bool} (h : Blind q) {t : Token} (ht : q t = true) :
    Token.veil t = t := by
  refine veil_of_not_literal ?_
  rw [← Bool.not_eq_true]
  intro literal
  rw [h t literal] at ht
  cases ht

theorem Blind.filter {q : Token → Bool} (h : Blind q) (ts : List Token) :
    (ts.map Token.veil).filter q = ts.filter q := by
  induction ts with
  | nil => rfl
  | cons t ts ih =>
      cases ht : q t with
      | true => rw [List.map_cons, h.veil_eq ht, List.filter_cons_of_pos ht, List.filter_cons_of_pos ht, ih]
      | false =>
          have shown : ¬q (Token.veil t) = true := by rw [h.veil, ht]; exact Bool.false_ne_true
          rw [List.map_cons, List.filter_cons_of_neg shown,
            List.filter_cons_of_neg (by rw [ht]; exact Bool.false_ne_true), ih]

theorem veil_line (t : Token) : (veil t).line = t.line := by
  rw [veil]
  split <;> rfl

/-- A literal is no sign of one character, veiled or not. -/
theorem text_veil_eq_sign (t : Token) (c : Char) : ((veil t).text == [c]) = (t.text == [c]) := by
  rw [veil]
  split
  · match t.text with
    | [] => rfl
    | [_] => rfl
    | _ :: _ :: _ => simp [veilText]
  · rfl

/-! What the rules find out about all tokens together. -/

theorem firstIdentifier?_veil (line : Int) (ts : List Token) :
    Declaration.firstIdentifier? line (ts.map veil) = Declaration.firstIdentifier? line ts := by
  induction ts with
  | nil => rfl
  | cons t ts ih =>
      rw [List.map_cons, Declaration.firstIdentifier?, Declaration.firstIdentifier?, veil_line, ih,
        blind_isIdentifier.veil]
      split
      · rfl
      · split
        · next ident => rw [blind_isIdentifier.veil_eq ident]
        · rfl

theorem declaredAfter_veil (ts : List Token) :
    Declaration.declaredAfter (ts.map veil) = Declaration.declaredAfter ts := by
  induction ts with
  | nil => rfl
  | cons t ts ih =>
      have declares : (veil t).declares = t.declares := (blind_isKeyword _).veil t
      rw [List.map_cons, Declaration.declaredAfter, Declaration.declaredAfter, veil_line, ih,
        firstIdentifier?_veil, declares]

theorem definedNames_veil (p : Profile) (ts : List Token) :
    Check.definedNames p (ts.map veil) = Check.definedNames p ts := by
  rw [Check.definedNames, Declaration.onLine, declaredAfter_veil]
  rfl

theorem assignmentCount_veil (name : Text) (ts : List Token) :
    Check.assignmentCount name (ts.map veil) = Check.assignmentCount name ts := by
  induction ts with
  | nil => rfl
  | cons t ts ih =>
      match ts with
      | [] => rfl
      | [_] => rfl
      | u :: v :: ts =>
          have named : ((veil t).isIdentifier && (veil t).text == name) =
              (t.isIdentifier && t.text == name) := (blind_isIdentifier.and (·.text == name)).veil t
          simp only [List.map_cons] at ih ⊢
          rw [Check.assignmentCount, Check.assignmentCount, ih, named, text_veil_eq_sign]

theorem costlyTokens_veil (p : Profile) (depth : Nat) (ts : List Token) :
    Check.costlyTokens p depth (ts.map veil) = Check.costlyTokens p depth ts := by
  have blind : Blind (Check.isCostly p) := by
    refine blind_of_kind .hostFunction rfl fun t ht => ?_
    simp only [Check.isCostly, Bool.and_eq_true, decide_eq_true_eq] at ht
    exact ht.1
  induction ts generalizing depth with
  | nil => rfl
  | cons t ts ih =>
      have inside : Check.loopDepth depth (veil t) = Check.loopDepth depth t := by
        rw [Check.loopDepth, Check.loopDepth, (blind_isKeyword _).veil t,
          (blind_isPunctuation _).veil t]
      rw [List.map_cons, Check.costlyTokens, Check.costlyTokens, inside, ih, blind.veil]
      split
      · next costly => rw [blind.veil_eq (Bool.and_eq_true_iff.mp costly).2]
      · rfl

theorem complexityScore_veil (ts : List Token) :
    Check.complexityScore (ts.map veil) = Check.complexityScore ts := by
  have blind : Blind Check.branches := by
    intro t literal
    have operator : t.kind ≠ .operator := by
      intro kind
      rw [kind] at literal
      cases literal
    simp [Check.branches, blind_isKeyword _ t literal, operator]
  have same : Check.branches ∘ veil = Check.branches := funext blind.veil
  rw [Check.complexityScore, List.countP_map, same]
  rfl

/-! Findings. -/

namespace Diagnostic

/-- A finding without the text of its line. -/
def bare (d : Diagnostic) : Diagnostic := { d with source := [] }

/-- Which rule a finding comes from, how severe it is, and where it stands. -/
def mark (d : Diagnostic) : String × Severity × Int × Int × Int × Int :=
  (d.rule, d.severity, d.line, d.column, d.endLine, d.endColumn)

end Diagnostic

namespace LintContext

/-- What a check sees where literals say nothing and of lines only the lengths are known. -/
def veiled (x : LintContext) : LintContext :=
  { x with tokens := x.tokens.map veil, lines := x.lines.map fun l => List.replicate l.length '.' }

variable (x : LintContext)

theorem zip_veiled : x.veiled.tokens.zip x.veiled.tokens.tail =
    (x.tokens.zip x.tokens.tail).map fun y => (veil y.1, veil y.2) := by
  rw [veiled, ← List.map_tail, List.zip_map]
  rfl

theorem undefinedNames_veiled :
    (Check.undefinedNames x.veiled).map Diagnostic.bare =
      (Check.undefinedNames x).map Diagnostic.bare := by
  have blind (defined : List Text) : Blind fun t =>
      t.isIdentifier && !Check.isKnown x.profile defined t.text := blind_isIdentifier.and _
  simp only [Check.undefinedNames, veiled, definedNames_veil, (blind _).filter, List.map_map]
  rfl

theorem deprecatedNames_veiled :
    (Check.deprecatedNames x.veiled).map Diagnostic.bare =
      (Check.deprecatedNames x).map Diagnostic.bare := by
  rw [Check.deprecatedNames, Check.deprecatedNames]
  by_cases allowed : x.options.allowDeprecated.isTruthy = true
  · rw [if_pos allowed, if_pos (show x.veiled.options.allowDeprecated.isTruthy = true from allowed)]
  · rw [if_neg allowed, if_neg (show ¬x.veiled.options.allowDeprecated.isTruthy = true from allowed),
      show x.veiled.tokens = x.tokens.map veil from rfl, List.filterMap_map, List.map_filterMap,
      List.map_filterMap]
    refine List.filterMap_congr fun t _ => ?_
    rw [Function.comp_apply, blind_isIdentifier.veil]
    split
    · next ident =>
        rw [blind_isIdentifier.veil_eq ident, Option.map_map, Option.map_map]
        rfl
    · rfl

theorem olderWording_veiled (t u : Token) :
    (Check.olderWording x.veiled (veil t) (veil u)).map Diagnostic.bare =
      (Check.olderWording x t u).map Diagnostic.bare := by
  rw [Check.olderWording, Check.olderWording, (blind_isKeyword _).veil t, (blind_isKeyword _).veil t,
    (blind_isPunctuation _).veil u]
  split
  · next var => rw [(blind_isKeyword _).veil_eq var]; rfl
  · split
    · next keyword =>
        rw [(blind_isKeyword _).veil_eq (Bool.and_eq_true_iff.mp keyword).1]
        rfl
    · rfl

theorem modernWording_veiled :
    (Check.modernWording x.veiled).map Diagnostic.bare =
      (Check.modernWording x).map Diagnostic.bare := by
  rw [Check.modernWording, Check.modernWording, wordingFrom_eq, wordingFrom_eq, zip_veiled,
    List.flatMap_map, List.map_flatMap, List.map_flatMap]
  exact List.flatMap_congr fun y _ => x.olderWording_veiled y.1 y.2

theorem constantFinding?_veiled (t u : Token) :
    (constantFinding? x.veiled (veil t) (veil u)).map Diagnostic.bare =
      (constantFinding? x t u).map Diagnostic.bare := by
  have isVar_veil : isVar (veil t) = isVar t := (blind_isKeyword _).veil t
  rw [constantFinding?, constantFinding?, isVar_veil, blind_isIdentifier.veil,
    show x.veiled.tokens = x.tokens.map veil from rfl, assignmentCount_veil]
  cases named : isVar t && u.isIdentifier with
  | false => rfl
  | true =>
      obtain ⟨var, ident⟩ := Bool.and_eq_true_iff.mp named
      rw [(blind_isKeyword _).veil_eq var, blind_isIdentifier.veil_eq ident]
      split <;> rfl

theorem constants_veiled :
    (Check.constants x.veiled).map Diagnostic.bare = (Check.constants x).map Diagnostic.bare := by
  rw [Check.constants, Check.constants, constantsFrom_eq, constantsFrom_eq, zip_veiled,
    List.filterMap_map, List.map_filterMap, List.map_filterMap]
  exact List.filterMap_congr fun y _ => x.constantFinding?_veiled y.1 y.2

theorem magicNumbers_veiled :
    (Check.magicNumbers x.veiled).map Diagnostic.bare =
      (Check.magicNumbers x).map Diagnostic.bare := by
  have blind : Blind (Check.isMagic x.profile) := by
    refine blind_of_kind .number rfl fun t ht => ?_
    simp only [Check.isMagic, Bool.and_eq_true, decide_eq_true_eq] at ht
    exact ht.1.1
  simp only [Check.magicNumbers, veiled, blind.filter, List.map_map]
  rfl

theorem naming_veiled :
    (Check.naming x.veiled).map Diagnostic.bare = (Check.naming x).map Diagnostic.bare := by
  have blind : Blind (Check.isMisnamed x.profile) := by
    refine blind_of_kind .identifier rfl fun t ht => ?_
    simp only [Check.isMisnamed, Bool.and_eq_true] at ht
    exact of_decide_eq_true ht.1.1.1
  simp only [Check.naming, veiled, blind.filter, List.map_map]
  rfl

theorem costlyCalls_veiled :
    (Check.costlyCalls x.veiled).map Diagnostic.bare =
      (Check.costlyCalls x).map Diagnostic.bare := by
  simp only [Check.costlyCalls, veiled, costlyTokens_veil, List.map_map]
  rfl

theorem complexity_veiled : Check.complexity x.veiled = Check.complexity x := by
  have last : x.veiled.lines.getLastD [] =
      List.replicate (x.lines.getLastD []).length '.' := by
    rw [veiled, List.getLastD_eq_getLast?, List.getLastD_eq_getLast?, List.getLast?_map]
    cases x.lines.getLast? <;> rfl
  have finding (score : Nat) : Check.tooComplex x.veiled score = Check.tooComplex x score := by
    rw [Check.tooComplex, Check.tooComplex, last, List.length_replicate]
    simp only [veiled, List.length_map]
  simp only [Check.complexity, finding]
  rw [show x.veiled.tokens = x.tokens.map veil from rfl, complexityScore_veil]
  rfl

/-- A rule sees no more than the veiled tokens and the lengths of the lines. -/
theorem report_veiled {r : Rule} (h : r ≠ .infiniteLoops) :
    (r.report x.veiled).map Diagnostic.bare = (r.report x).map Diagnostic.bare := by
  cases r with
  | undefinedNames => exact x.undefinedNames_veiled
  | deprecatedNames => exact x.deprecatedNames_veiled
  | modernWording => exact x.modernWording_veiled
  | infiniteLoops => exact absurd rfl h
  | complexity => simp only [Rule.report, Rule.check, complexity_veiled]
  | unusedNames =>
      have none (y : LintContext) : Rule.unusedNames.report y = [] := unusedNames_eq_nil y
      rw [none, none]
  | constants => exact x.constants_veiled
  | magicNumbers => exact x.magicNumbers_veiled
  | naming => exact x.naming_veiled
  | costlyCalls => exact x.costlyCalls_veiled

end LintContext

namespace Linter

variable {p : Profile} {o : LintOptions} {source other : Text}

theorem veiled_context (h : differInLiterals p source other = true) :
    (context p o other).veiled = (context p o source).veiled := by
  obtain ⟨tokens, lengths⟩ := of_differInLiterals h
  have dots (t : Text) : ((Text.lines t).map fun l => List.replicate l.length '.') =
      ((Text.lines t).map List.length).map fun n => List.replicate n '.' := by
    rw [List.map_map]
    rfl
  rw [LintContext.veiled, LintContext.veiled]
  simp only [context, tokens, dots, lengths]

theorem bare_finish (d : Diagnostic) : (o.finish d).bare = o.finish d.bare := by
  rw [LintOptions.finish, LintOptions.finish]
  split <;> rfl

/-- What a rule reports, but the one on endless loops, is the same in both texts. -/
theorem report_of_differInLiterals (h : differInLiterals p source other = true) {r : Rule}
    (hr : r ≠ .infiniteLoops) :
    ((r.report (context p o other)).map o.finish).map Diagnostic.bare =
      ((r.report (context p o source)).map o.finish).map Diagnostic.bare := by
  have finished (ds : List Diagnostic) :
      (ds.map o.finish).map Diagnostic.bare = (ds.map Diagnostic.bare).map o.finish := by
    rw [List.map_map, List.map_map]
    exact List.map_congr_left fun d _ => bare_finish d
  rw [finished, finished, ← LintContext.report_veiled _ hr, veiled_context h,
    LintContext.report_veiled _ hr]

/-! Endless loops. -/

def isLoop (t : Token) : Bool := t.isKeyword Language.loopKeywords

/-- The test on the line of a token. -/
def endless (p : Profile) (o : LintOptions) (source : Text) (t : Token) : Bool :=
  Check.hasEndlessLoop ((context p o source).lineText t.line)

theorem filter_isLoop (h : differInLiterals p source other = true) :
    (tokenize p other).filter isLoop = (tokenize p source).filter isLoop := by
  have blind : Blind isLoop := blind_isKeyword _
  rw [← blind.filter, (of_differInLiterals h).1, blind.filter]

/-- What is reported of a loop keyword. -/
def loopMark (t : Token) : String × Severity × Int × Int × Int × Int :=
  (Rule.infiniteLoops.id, .error, t.line, t.column, t.line, t.endColumn)

theorem marks_infiniteLoops (p : Profile) (o : LintOptions) (source : Text) :
    ((Rule.infiniteLoops.report (context p o source)).map o.finish).map Diagnostic.mark =
      (((tokenize p source).filter isLoop).filter (endless p o source)).map loopMark := by
  have flagged : (tokenize p source).filter (fun t => t.isKeyword Language.loopKeywords &&
      Check.hasEndlessLoop ((context p o source).lineText t.line)) =
      ((tokenize p source).filter isLoop).filter (endless p o source) := by
    rw [List.filter_filter]
    exact List.filter_congr fun t _ => Bool.and_comm ..
  rw [← flagged]
  simp only [Rule.report, Rule.check, Check.infiniteLoops, List.map_map]
  refine List.map_congr_left fun t _ => ?_
  simp only [Function.comp_apply, LintOptions.finish]
  split <;> rfl

theorem endless_iff {l : Linter} (on : o.isEnabled Rule.infiniteLoops.id = true) {t : Token}
    (ht : t ∈ (tokenize l.profile source).filter isLoop) :
    endless l.profile o source t = true ↔
      loopMark t ∈ (l.lintWith o source).map Diagnostic.mark := by
  constructor
  · intro flagged
    have reported : loopMark t ∈ ((Rule.infiniteLoops.report (context l.profile o source)).map
        o.finish).map Diagnostic.mark := by
      rw [marks_infiniteLoops]
      exact List.mem_map_of_mem (List.mem_filter.mpr ⟨ht, flagged⟩)
    obtain ⟨d, hd, same⟩ := List.mem_map.mp reported
    refine List.mem_map.mpr ⟨d, ?_, same⟩
    rw [lintWith_eq]
    exact List.mem_flatMap.mpr ⟨_, List.mem_filter.mpr ⟨Rule.mem_all _, on⟩, hd⟩
  · intro found
    obtain ⟨d, hd, same⟩ := List.mem_map.mp found
    obtain ⟨r, -, e, he, rfl⟩ := mem_run.mp hd
    have rule : (o.finish e).rule = Rule.infiniteLoops.id := congrArg Prod.fst same
    rw [LintOptions.rule_finish, rule_of_mem_report he] at rule
    obtain rfl := Rule.id_inj.mp rule
    have reported : loopMark t ∈ ((Rule.infiniteLoops.report (context l.profile o source)).map
        o.finish).map Diagnostic.mark :=
      same ▸ List.mem_map_of_mem (List.mem_map_of_mem he)
    rw [marks_infiniteLoops] at reported
    obtain ⟨u, hu, place⟩ := List.mem_map.mp reported
    obtain ⟨loop, flagged⟩ := List.mem_filter.mp hu
    simp only [loopMark, Prod.mk.injEq, true_and] at place
    obtain rfl := eq_of_place (List.mem_filter.mp loop).1 (List.mem_filter.mp ht).1 place.1 place.2.1
    exact flagged

/-! Two texts. -/

/-- Two texts that differ within literals only get the same findings from all rules but the one
on endless loops, with their messages and suggestions. They get the same marks from all rules
just if that rule is off, or finds its text on the same lines of loop keywords in both. -/
theorem lint_ignores_literals (l : Linter) (o : LintOptions) {source other : Text}
    (h : differInLiterals l.profile source other = true) :
    ((l.lintWith o other).filter (·.rule != Rule.infiniteLoops.id)).map Diagnostic.bare =
        ((l.lintWith o source).filter (·.rule != Rule.infiniteLoops.id)).map Diagnostic.bare ∧
      ((l.lintWith o other).map Diagnostic.mark = (l.lintWith o source).map Diagnostic.mark ↔
        (o.isEnabled Rule.infiniteLoops.id = true →
          ∀ t ∈ tokenize l.profile source, isLoop t = true →
            endless l.profile o other t = endless l.profile o source t)) := by
  refine ⟨?_, ⟨fun same on t ht loop => ?_, fun agree => ?_⟩⟩
  · rw [← lintWith_without, ← lintWith_without, lintWith_eq, lintWith_eq, List.map_flatMap,
      List.map_flatMap]
    refine List.flatMap_congr fun r hr => report_of_differInLiterals h ?_
    rw [enabledRules_without] at hr
    exact bne_iff_ne.mp (List.mem_filter.mp hr).2
  · have here : t ∈ (tokenize l.profile source).filter isLoop := List.mem_filter.mpr ⟨ht, loop⟩
    have there : t ∈ (tokenize l.profile other).filter isLoop := (filter_isLoop h).symm ▸ here
    rw [Bool.eq_iff_iff, endless_iff on there, endless_iff on here, same]
  · rw [lintWith_eq, lintWith_eq, List.map_flatMap, List.map_flatMap]
    refine List.flatMap_congr fun r hr => ?_
    by_cases loops : r = .infiniteLoops
    · subst loops
      have flagged := agree (List.mem_filter.mp hr).2
      rw [marks_infiniteLoops, marks_infiniteLoops, filter_isLoop h]
      refine congrArg (List.map loopMark) (List.filter_congr fun t ht => ?_)
      exact flagged t (List.mem_filter.mp ht).1 (List.mem_filter.mp ht).2
    · have bare := report_of_differInLiterals (o := o) h loops
      have marks (ds : List Diagnostic) :
          ds.map Diagnostic.mark = (ds.map Diagnostic.bare).map Diagnostic.mark := by
        rw [List.map_map]
        rfl
      rw [marks, bare, ← marks]

/-- A loop with a string and a comment behind it, and another text for both. -/
theorem lint_ignores_literals_loop :
    let source := "while (x) \x7b y = 'ab' \x7d // while!".toList
    let other := "while (x) \x7b y = 'c;' \x7d // (true)".toList
    differInLiterals Profile.standard source other = true ∧ lintWith {} {} source ≠ [] ∧
      (lintWith {} {} other).map Diagnostic.mark = (lintWith {} {} source).map Diagnostic.mark := by
  intro source other
  have within : differInLiterals Profile.standard source other = true := by decide +kernel
  have quiet : ∀ t ∈ tokenize Profile.standard source, isLoop t = true →
      endless Profile.standard {} other t = endless Profile.standard {} source t := by
    decide +kernel
  exact ⟨within, by decide +kernel,
    (lint_ignores_literals {} {} within).2.mpr fun _ => quiet⟩

/-- An endless loop in a comment is reported, at the loop keyword in front of it. -/
theorem lint_reads_comment :
    let source := "for (;;) {} // while(true)".toList
    let other := "for (;;) {} // until(true)".toList
    differInLiterals Profile.standard source other = true ∧
      (lintWith {} {} other).map Diagnostic.mark ≠ (lintWith {} {} source).map Diagnostic.mark := by
  decide +kernel

end Linter

end MotionExpr
