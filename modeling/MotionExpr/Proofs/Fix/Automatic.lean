import Mathlib.Data.List.Chain
import MotionExpr.Proofs.Fix.Patch
import MotionExpr.Fix.Session
import MotionExpr.Proofs.Lint.Independence

/-!
The text after all fixes of a linter. Three rules have texts to put in the place of
a token; each decides by the token, by the one behind it and by the whole text. So
fixing is a patch.
-/

namespace MotionExpr

open Token

/-- The token behind a token. -/
def follower : List Token → Token → Option Token
  | t :: u :: ts, v => if v = t then some u else follower (u :: ts) v
  | _, _ => none

theorem isVar_iff {t : Token} : isVar t = true ↔ spelling t = (.keyword, "var".toList) := by
  simp [isVar, isKeyword, spelling, Language.names]

/-- The text that a rule puts in the place of a token unattended. -/
def Rule.newText (p : Profile) (o : LintOptions) (tokens : List Token) :
    Rule → Token → Option Text
  | .deprecatedNames, t =>
      if o.allowDeprecated.isTruthy || !t.isIdentifier then none
      else (p.deprecation? t.text).map (·.replacement)
  | .modernWording, t =>
      (follower tokens t).bind fun _ => if isVar t then some "let".toList else none
  | .constants, t =>
      (follower tokens t).bind fun u =>
        if isVar t && u.isIdentifier && Check.assignmentCount u.text tokens ≤ 1 then
          some "const".toList
        else none
  | _, _ => none

/-- The rules that fix unattended, and the others at once. -/
@[elab_as_elim]
theorem Rule.cases_autoFixable {motive : Rule → Prop} (r : Rule)
    (others : ∀ r : Rule, r.autoFixable = false → motive r)
    (deprecatedNames : motive .deprecatedNames) (modernWording : motive .modernWording)
    (constants : motive .constants) : motive r := by
  cases r with
  | deprecatedNames => exact deprecatedNames
  | modernWording => exact modernWording
  | constants => exact constants
  | undefinedNames => exact others _ rfl
  | infiniteLoops => exact others _ rfl
  | complexity => exact others _ rfl
  | unusedNames => exact others _ rfl
  | magicNumbers => exact others _ rfl
  | naming => exact others _ rfl
  | costlyCalls => exact others _ rfl

theorem Rule.newText_of_not_autoFixable {r : Rule} (h : r.autoFixable = false) (p : Profile)
    (o : LintOptions) (tokens : List Token) (t : Token) : r.newText p o tokens t = none := by
  cases r <;> first | rfl | cases h

section Follower

theorem follower_of_mem {t u v : Token} {ts : List Token} (distinct : (t :: u :: ts).Nodup)
    (h : v ∈ u :: ts) : follower (t :: u :: ts) v = follower (u :: ts) v := by
  rw [follower, if_neg]
  rintro rfl
  exact (List.nodup_cons.mp distinct).1 h

/-- A list made along neighbours is one made token by token. -/
theorem filterMap_follower {β : Type} {tokens : List Token} (distinct : tokens.Nodup)
    (f : Token → Token → Option β) :
    (tokens.filterMap fun t => (follower tokens t).bind (f t)) =
      (tokens.zip tokens.tail).filterMap fun x => f x.1 x.2 := by
  induction tokens with
  | nil => rfl
  | cons t ts ih =>
      cases ts with
      | nil => rfl
      | cons u us =>
          have later : ((u :: us).filterMap fun v => (follower (t :: u :: us) v).bind (f v)) =
              (u :: us).filterMap fun v => (follower (u :: us) v).bind (f v) :=
            List.filterMap_congr fun v hv => by rw [follower_of_mem distinct hv]
          have here : follower (t :: u :: us) t = some u := by rw [follower, if_pos rfl]
          rw [List.filterMap_cons, later, ih (List.nodup_cons.mp distinct).2, here]
          rfl

/-- What holds of neighbours holds of a token and the one behind it. -/
theorem of_follower {R : Token → Token → Prop} {tokens : List Token} (chain : tokens.IsChain R)
    {t u : Token} (h : follower tokens t = some u) : R t u := by
  induction tokens with
  | nil => cases h
  | cons v vs ih =>
      cases vs with
      | nil => cases h
      | cons w ws =>
          rw [List.isChain_cons_cons] at chain
          rw [follower] at h
          split at h
          · next here =>
              cases h
              rw [here]
              exact chain.1
          · exact ih chain.2 h

theorem isChain_follower {tokens : List Token} (distinct : tokens.Nodup) :
    tokens.IsChain fun t u => follower tokens t = some u := by
  induction tokens with
  | nil => exact .nil
  | cons t ts ih =>
      cases ts with
      | nil => exact .singleton t
      | cons u us =>
          rw [List.isChain_cons_cons]
          refine ⟨by rw [follower, if_pos rfl], ?_⟩
          refine (ih (List.nodup_cons.mp distinct).2).imp_of_mem_imp fun v w hv _ hvw => ?_
          rwa [follower_of_mem distinct hv]

end Follower

/-! The fixes of each rule. -/

section Rules

variable {p : Profile} {o : LintOptions} {source : Text}

theorem autoFix?_finding {x : LintContext} {r : Rule} (auto : r.autoFixable = true) (t : Token)
    (message : String) (suggestions : List Text) :
    (x.finding r t message suggestions).autoFix? =
      ((suggestions.filter r.accepts).map (fixAt t)).head? := by
  have quick := Rule.quickFixable_of_autoFixable auto
  simp only [Diagnostic.autoFix?, Diagnostic.isAutoFixable, Diagnostic.quickFixes,
    Diagnostic.replacements, LintContext.finding, Rule.ofId?_id, auto, quick, ite_true,
    Option.getD_some]
  rfl

/-- A rule that is not applied unattended has nothing to apply. -/
theorem autoFix?_of_not_autoFixable {d : Diagnostic} {r : Rule} (h : d.rule = r.id)
    (auto : r.autoFixable = false) : d.autoFix? = none := by
  simp [Diagnostic.autoFix?, Diagnostic.isAutoFixable, h, Rule.ofId?_id, auto]

theorem nodup_tokenize (p : Profile) (source : Text) : (tokenize p source).Nodup :=
  (pairwise_tokenize p source).imp fun h => by
    rintro rfl
    cases h with
    | inl h => omega
    | inr h => omega

theorem autoFixes_deprecated :
    (Rule.deprecatedNames.report (Linter.context p o source)).filterMap (·.autoFix?) =
      (tokenize p source).filterMap fun t =>
        (Rule.deprecatedNames.newText p o (tokenize p source) t).map (fixAt t) := by
  simp only [Rule.report, Rule.check, Check.deprecatedNames, Rule.newText]
  by_cases allowed : o.allowDeprecated.isTruthy = true
  · simp [Linter.context, allowed]
  · simp only [Linter.context, allowed, Bool.false_eq_true, ite_false, Bool.false_or,
      List.filterMap_filterMap]
    congr 1
    funext t
    cases t.isIdentifier with
    | false => rfl
    | true =>
        cases p.deprecation? t.text with
        | none => rfl
        | some d => exact autoFix?_finding (r := .deprecatedNames) rfl t _ [d.replacement]

theorem autoFix?_olderWording (x : LintContext) (t u : Token) :
    (Check.olderWording x t u).filterMap (·.autoFix?) =
      ((if isVar t then some "let".toList else none).map (fixAt t)).toList := by
  rw [Check.olderWording, isVar]
  by_cases var : t.isKeyword (Language.names ["var"]) = true
  · have first := autoFix?_finding (x := x) (r := .modernWording) rfl t
      "Consider using 'let' or 'const' instead of 'var'" ["let".toList, "const".toList]
    have offered : (["let".toList, "const".toList].filter Rule.modernWording.accepts) =
        ["let".toList, "const".toList] := by decide
    rw [offered] at first
    rw [if_pos var, if_pos var, List.filterMap_cons_some first]
    rfl
  · rw [if_neg var, if_neg var]
    split
    · have none := autoFix?_finding (x := x) (r := .modernWording) rfl t
        "Consider using arrow function syntax" ["() => \x7b\x7d".toList]
      have offered : (["() => \x7b\x7d".toList].filter Rule.modernWording.accepts) = [] := by decide
      rw [offered] at none
      rw [List.filterMap_cons_none none]
      rfl
    · rfl

theorem autoFixes_wording :
    (Rule.modernWording.report (Linter.context p o source)).filterMap (·.autoFix?) =
      (tokenize p source).filterMap fun t =>
        (Rule.modernWording.newText p o (tokenize p source) t).map (fixAt t) := by
  simp only [Rule.report, Rule.check, Check.modernWording, wordingFrom_eq, Rule.newText,
    Option.map_bind]
  rw [filterMap_follower (nodup_tokenize p source), List.filterMap_flatMap]
  simp only [autoFix?_olderWording]
  rw [← List.filterMap_eq_flatMap_toList]
  rfl

theorem autoFix?_constantFinding (x : LintContext) (t u : Token) :
    (constantFinding? x t u).bind (·.autoFix?) =
      (if isVar t && u.isIdentifier && Check.assignmentCount u.text x.tokens ≤ 1 then
        some "const".toList else none).map (fixAt t) := by
  rw [constantFinding?]
  by_cases flagged :
      (isVar t && u.isIdentifier && Check.assignmentCount u.text x.tokens ≤ 1) = true
  · rw [if_pos flagged, if_pos flagged]
    exact autoFix?_finding (r := .constants) rfl t _ ["const".toList]
  · rw [if_neg flagged, if_neg flagged]
    rfl

theorem autoFixes_constants :
    (Rule.constants.report (Linter.context p o source)).filterMap (·.autoFix?) =
      (tokenize p source).filterMap fun t =>
        (Rule.constants.newText p o (tokenize p source) t).map (fixAt t) := by
  simp only [Rule.report, Rule.check, Check.constants, constantsFrom_eq, Rule.newText,
    Option.map_bind]
  rw [filterMap_follower (nodup_tokenize p source), List.filterMap_filterMap]
  congr 1
  funext y
  exact autoFix?_constantFinding (Linter.context p o source) y.1 y.2

/-- What a rule applies unattended, token by token. -/
theorem autoFixes_report (r : Rule) :
    (r.report (Linter.context p o source)).filterMap (·.autoFix?) =
      (tokenize p source).filterMap fun t =>
        (r.newText p o (tokenize p source) t).map (fixAt t) := by
  cases r using Rule.cases_autoFixable with
  | others r auto =>
      have nothing : (r.report (Linter.context p o source)).filterMap (·.autoFix?) = [] := by
        rw [List.filterMap_eq_nil_iff]
        exact fun d hd => autoFix?_of_not_autoFixable (rule_of_mem_report hd) auto
      simp [nothing, Rule.newText_of_not_autoFixable auto]
  | deprecatedNames => exact autoFixes_deprecated
  | modernWording => exact autoFixes_wording
  | constants => exact autoFixes_constants

end Rules

/-! All fixes of a linter. -/

variable {l : Linter} {source : Text}

/-- The text that takes the place of a token when all is fixed: that of the first rule. -/
def autoText (l : Linter) (source : Text) : Token → Option Text :=
  QuickFix.chosenText ((Linter.enabledRules l.options).map fun r =>
    r.newText l.profile l.options (tokenize l.profile source))

/-- Strict mode changes no fix. -/
theorem autoFixes_lint :
    (l.lint source).filterMap (·.autoFix?) =
      (Linter.enabledRules l.options).flatMap fun r =>
        (tokenize l.profile source).filterMap fun t =>
          (r.newText l.profile l.options (tokenize l.profile source) t).map (fixAt t) := by
  have promoted (found : List Diagnostic) :
      (found.map (·.promote)).filterMap (·.autoFix?) = found.filterMap (·.autoFix?) := by
    rw [List.filterMap_map]
    rfl
  have plain : (l.lint source).filterMap (·.autoFix?) =
      ((Linter.enabledRules l.options).flatMap fun r =>
        r.report (Linter.context l.profile l.options source)).filterMap (·.autoFix?) := by
    rw [Linter.lint, Linter.lintWith, Linter.run]
    split
    · exact promoted _
    · rfl
  rw [plain, List.filterMap_flatMap]
  simp only [autoFixes_report]

theorem chosen_lint :
    QuickFix.chosen (l.lint source) = fixesOf (autoText l source) (tokenize l.profile source) := by
  rw [fixesOf, autoText, ← QuickFix.chosen_fixes (pairwise_tokenize l.profile source)
    (fun t ht => ne_nil_of_mem_tokenize ht)]
  rw [autoFixes_lint, List.flatMap_map]

/-- Fixing all is a patch. -/
theorem fixAll_lint (hnew : ∀ t n, autoText l source t = some n → '\n' ∉ n) :
    fixAll source (l.lint source) = patch l.profile (autoText l source) source := by
  rw [fixAll, chosen_lint, applyAll_fixesOf hnew]

theorem of_deprecation? {p : Profile} {word : Text} {d : Deprecation}
    (h : p.deprecation? word = some d) : (word, d) ∈ p.deprecated := by
  obtain ⟨e, he, rfl⟩ := Option.map_eq_some_iff.mp h
  have same : e.1 = word := by simpa using List.find?_some he
  rw [← same]
  exact List.mem_of_find?_eq_some he

/-- What a text can be in the place of a token. -/
inductive Replaces (p : Profile) : Token → Text → Prop where
  | renamed {t d} : t.isIdentifier = true → p.deprecation? t.text = some d →
      Replaces p t d.replacement
  | declared {t n} : isVar t = true → n ∈ ["let".toList, "const".toList] → Replaces p t n

theorem replaces_of_newText {p : Profile} {o : LintOptions} {tokens : List Token} {r : Rule}
    {t : Token} {n : Text} (h : r.newText p o tokens t = some n) : Replaces p t n := by
  cases r using Rule.cases_autoFixable with
  | others r auto =>
      rw [Rule.newText_of_not_autoFixable auto] at h
      cases h
  | deprecatedNames =>
      rw [Rule.newText] at h
      split at h
      · cases h
      · next here =>
          obtain ⟨d, hd, rfl⟩ := Option.map_eq_some_iff.mp h
          simp only [Bool.or_eq_true, Bool.not_eq_true', not_or, Bool.not_eq_false] at here
          exact .renamed here.2 hd
  | modernWording =>
      obtain ⟨u, -, hu⟩ := Option.bind_eq_some_iff.mp h
      split at hu
      · next var =>
          cases hu
          exact .declared var (by decide)
      · cases hu
  | constants =>
      obtain ⟨u, -, hu⟩ := Option.bind_eq_some_iff.mp h
      split at hu
      · next var =>
          cases hu
          simp only [Bool.and_eq_true] at var
          exact .declared var.1.1 (by decide)
      · cases hu

theorem autoText_eq_some {t : Token} {n : Text} (h : autoText l source t = some n) :
    ∃ r ∈ Linter.enabledRules l.options,
      r.newText l.profile l.options (tokenize l.profile source) t = some n := by
  have mem := List.mem_of_head? h
  obtain ⟨rule, hrule, ht⟩ := List.mem_filterMap.mp mem
  obtain ⟨r, hr, rfl⟩ := List.mem_map.mp hrule
  exact ⟨r, hr, ht⟩

/-- A token keeps its text just where no rule has another one. -/
theorem autoText_eq_none_iff {t : Token} :
    autoText l source t = none ↔ ∀ r ∈ Linter.enabledRules l.options,
      r.newText l.profile l.options (tokenize l.profile source) t = none := by
  rw [autoText, QuickFix.chosenText, List.head?_eq_none_iff, offered, List.filterMap_eq_nil_iff,
    List.forall_mem_map]

/-- Deprecated names are looked for and replaced. -/
def LintOptions.modernizes (o : LintOptions) : Bool :=
  o.isEnabled Rule.deprecatedNames.id && !o.allowDeprecated.isTruthy

/-- An identifier is replaced just for its name. -/
theorem autoText_identifier {t : Token} (ident : t.isIdentifier = true) :
    autoText l source t =
      if l.options.modernizes then (l.profile.deprecation? t.text).map (·.replacement)
      else none := by
  have other : isVar t = false := by
    rw [← Bool.not_eq_true, isVar_iff]
    intro var
    rw [isIdentifier, decide_eq_true_eq, (Prod.mk.inj var).1] at ident
    cases ident
  cases h : autoText l source t with
  | none =>
      split
      · next on =>
          rw [LintOptions.modernizes, Bool.and_eq_true, Bool.not_eq_true'] at on
          have here := autoText_eq_none_iff.mp h _ (mem_enabledRules.mpr on.1)
          rw [Rule.newText, on.2, ident, if_neg (by decide)] at here
          exact here.symm
      · rfl
  | some n =>
      obtain ⟨r, hr, hn⟩ := autoText_eq_some h
      cases r using Rule.cases_autoFixable with
      | others r auto =>
          rw [Rule.newText_of_not_autoFixable auto] at hn
          cases hn
      | deprecatedNames =>
          rw [Rule.newText] at hn
          split at hn
          · cases hn
          · next allowed =>
              have on : l.options.modernizes = true := by
                rw [LintOptions.modernizes, mem_enabledRules.mp hr]
                simpa [ident] using allowed
              rw [if_pos on, hn]
      | modernWording => simp [Rule.newText, other] at hn
      | constants => simp [Rule.newText, other] at hn

theorem replaces_of_autoText {t : Token} {n : Text} (h : autoText l source t = some n) :
    Replaces l.profile t n := by
  obtain ⟨r, -, hr⟩ := autoText_eq_some h
  exact replaces_of_newText hr

end MotionExpr
