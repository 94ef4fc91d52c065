import Mathlib.Data.List.Forall2
import MotionExpr.Lint.Engine
import MotionExpr.Proofs.Token.Coverage

/-!
Where findings stand. Each rule but the one on complexity goes along the tokens and makes its
findings from some of them, in their order. So a finding spans a token, and a rule reports no
place twice. Nothing is claimed of the finding on complexity: it spans the whole text.
-/

namespace MotionExpr

open Token

/-- The findings of a rule, each made from a token and in the order of these. -/
def LintContext.Anchored (x : LintContext) (r : Rule) (ds : List Diagnostic) (ts : List Token) :
    Prop :=
  List.SublistForall₂ (fun d t => ∃ message suggestions, d = x.finding r t message suggestions) ds ts

namespace LintContext.Anchored

variable {x : LintContext} {r : Rule} {ds : List Diagnostic} {ts : List Token}

theorem map {us : List Token} (sub : us.Sublist ts) (message : Token → String)
    (suggestions : Token → List Text) :
    x.Anchored r (us.map fun t => x.finding r t (message t) (suggestions t)) ts :=
  List.sublistForall₂_iff.mpr
    ⟨us, List.forall₂_map_left_iff.mpr (List.forall₂_same.mpr fun t _ => ⟨message t, suggestions t, rfl⟩), sub⟩

/-- Findings made one by one, each from the token that it is looked for at. -/
theorem flatMap {α : Type} {ys : List α} {anchor : α → Token} {f : α → List Diagnostic}
    (h : ∀ y, f y = [] ∨ ∃ message suggestions, f y = [x.finding r (anchor y) message suggestions]) :
    x.Anchored r (ys.flatMap f) (ys.map anchor) := by
  induction ys with
  | nil => exact .nil
  | cons y ys ih =>
      rw [List.flatMap_cons, List.map_cons]
      rcases h y with none | ⟨message, suggestions, one⟩
      · rw [none]
        exact .cons_right ih
      · rw [one]
        exact .cons ⟨message, suggestions, rfl⟩ ih

theorem mono {us : List Token} (h : x.Anchored r ds ts) (sub : ts.Sublist us) :
    x.Anchored r ds us := by
  obtain ⟨vs, found, hvs⟩ := List.sublistForall₂_iff.mp h
  exact List.sublistForall₂_iff.mpr ⟨vs, found, hvs.trans sub⟩

theorem exists_token (h : x.Anchored r ds ts) {d : Diagnostic} (hd : d ∈ ds) :
    ∃ t ∈ ts, ∃ message suggestions, d = x.finding r t message suggestions := by
  induction h with
  | nil => cases hd
  | cons here _ ih =>
      rcases List.mem_cons.mp hd with rfl | hd
      · exact ⟨_, List.mem_cons_self .., here⟩
      · obtain ⟨t, ht, made⟩ := ih hd
        exact ⟨t, List.mem_cons_of_mem _ ht, made⟩
  | cons_right _ ih =>
      obtain ⟨t, ht, made⟩ := ih hd
      exact ⟨t, List.mem_cons_of_mem _ ht, made⟩

end LintContext.Anchored

/-- One finding begins in front of the other. -/
def Diagnostic.Precedes (d e : Diagnostic) : Prop :=
  d.line < e.line ∨ d.line = e.line ∧ d.column < e.column

/-- Findings are ordered as their tokens are. -/
theorem LintContext.Anchored.pairwise {x : LintContext} {r : Rule} {ds : List Diagnostic}
    {ts : List Token} (h : x.Anchored r ds ts) (ordered : ts.Pairwise Before) :
    ds.Pairwise Diagnostic.Precedes := by
  induction h with
  | nil => exact .nil
  | @cons d t ds ts here found ih =>
      obtain ⟨first, rest⟩ := List.pairwise_cons.mp ordered
      refine List.pairwise_cons.mpr ⟨fun e he => ?_, ih rest⟩
      obtain ⟨message, suggestions, rfl⟩ := here
      obtain ⟨u, hu, message', suggestions', rfl⟩ := LintContext.Anchored.exists_token found he
      exact (first u hu).imp id fun same => ⟨same.1, same.2.1⟩
  | cons_right _ ih => exact ih (List.pairwise_cons.mp ordered).2

/-! The rules one by one. -/

section Rules

variable (x : LintContext)

def isVar (t : Token) : Bool := t.isKeyword (Language.names ["var"])

theorem wordingFrom_eq (ts : List Token) :
    Check.wordingFrom x ts = (ts.zip ts.tail).flatMap fun y => Check.olderWording x y.1 y.2 := by
  induction ts with
  | nil => rfl
  | cons t ts ih =>
      cases ts with
      | nil => rfl
      | cons u us => rw [Check.wordingFrom, ih]; rfl

/-- The finding for a declared name that could be constant. -/
def constantFinding? (x : LintContext) (t u : Token) : Option Diagnostic :=
  if isVar t && u.isIdentifier && Check.assignmentCount u.text x.tokens ≤ 1 then
    some (x.finding .constants t
      ("'" ++ String.ofList u.text ++ "' is never reassigned. Use 'const' instead of 'var'")
      ["const".toList])
  else none

theorem constantsFrom_eq (ts : List Token) :
    Check.constantsFrom x ts = (ts.zip ts.tail).filterMap fun y => constantFinding? x y.1 y.2 := by
  induction ts with
  | nil => rfl
  | cons t ts ih =>
      cases ts with
      | nil => rfl
      | cons u us =>
          have step : (((t :: u :: us).zip (t :: u :: us).tail).filterMap fun y =>
              constantFinding? x y.1 y.2) = (constantFinding? x t u).toList ++
                ((u :: us).zip (u :: us).tail).filterMap fun y => constantFinding? x y.1 y.2 := by
            rw [List.tail_cons, List.zip_cons_cons, List.filterMap_cons]
            cases constantFinding? x t u <;> rfl
          rw [step, ← ih, Check.constantsFrom, constantFinding?, isVar]
          split <;> rfl

/-- The tokens that have one behind them. -/
theorem sublist_zip_tail (ts : List Token) : ((ts.zip ts.tail).map Prod.fst).Sublist ts := by
  induction ts with
  | nil => exact List.Sublist.refl _
  | cons t ts ih =>
      cases ts with
      | nil => exact List.nil_sublist _
      | cons u us => exact ih.cons_cons t

theorem sublist_costlyTokens (p : Profile) (depth : Nat) (ts : List Token) :
    (Check.costlyTokens p depth ts).Sublist ts := by
  induction ts generalizing depth with
  | nil => exact List.Sublist.refl _
  | cons t ts ih =>
      rw [Check.costlyTokens]
      split
      · exact (ih _).cons_cons t
      · exact (ih _).cons t

theorem mem_put {ts : List Token} {t u : Token} (h : u ∈ Declaration.put ts t) : u ∈ ts ∨ u = t := by
  induction ts with
  | nil => exact .inr (List.mem_singleton.mp h)
  | cons v vs ih =>
      rw [Declaration.put] at h
      split at h
      · rcases List.mem_cons.mp h with rfl | h
        · exact .inr rfl
        · exact .inl (List.mem_cons_of_mem _ h)
      · rcases List.mem_cons.mp h with rfl | h
        · exact .inl (List.mem_cons_self ..)
        · exact (ih h).imp (List.mem_cons_of_mem _) id

theorem mem_foldl_put {us ts : List Token} {u : Token} (h : u ∈ us.foldl Declaration.put ts) :
    u ∈ ts ∨ u ∈ us := by
  induction us generalizing ts with
  | nil => exact .inl h
  | cons t us ih =>
      rcases ih h with h | h
      · refine (mem_put h).imp id ?_
        rintro rfl
        exact List.mem_cons_self ..
      · exact .inr (List.mem_cons_of_mem _ h)

theorem of_mem_directlyBehind {ts : List Token} {u : Token} (h : u ∈ Declaration.directlyBehind ts) :
    u ∈ ts ∧ u.isIdentifier = true := by
  induction ts with
  | nil => cases h
  | cons t ts ih =>
      cases ts with
      | nil => cases h
      | cons v vs =>
          rw [Declaration.directlyBehind] at h
          split at h
          · next declared =>
              rcases List.mem_cons.mp h with rfl | h
              · rw [Bool.and_eq_true] at declared
                exact ⟨List.mem_cons_of_mem _ (List.mem_cons_self ..), declared.2⟩
              · exact (ih h).imp (List.mem_cons_of_mem _) id
          · exact (ih h).imp (List.mem_cons_of_mem _) id

/-- A declared name is used where it is declared, so it is never reported. -/
theorem unusedNames_eq_nil : Check.unusedNames x = [] := by
  have used : ∀ t ∈ Declaration.immediate x.tokens, ¬(!Check.isUsed x.tokens t.text) = true := by
    intro t ht
    obtain ⟨member, ident⟩ := of_mem_directlyBehind ((mem_foldl_put ht).resolve_left List.not_mem_nil)
    have here : Check.isUsed x.tokens t.text = true :=
      List.any_eq_true.mpr ⟨t, member, by rw [ident, beq_self_eq_true, Bool.true_and]⟩
    rw [here]
    decide
  rw [Check.unusedNames, List.filter_eq_nil_iff.mpr used, List.map_nil]

theorem anchored_deprecatedNames : x.Anchored .deprecatedNames (Check.deprecatedNames x) x.tokens := by
  rw [Check.deprecatedNames]
  split
  · exact .nil
  · rw [List.filterMap_eq_flatMap_toList]
    have along := List.map_id x.tokens
    conv => rhs; rw [← along]
    refine LintContext.Anchored.flatMap fun t => ?_
    split
    · cases x.profile.deprecation? t.text with
      | none => exact .inl rfl
      | some d => exact .inr ⟨_, _, rfl⟩
    · exact .inl rfl

theorem anchored_modernWording : x.Anchored .modernWording (Check.modernWording x) x.tokens := by
  rw [Check.modernWording, wordingFrom_eq]
  refine LintContext.Anchored.mono (LintContext.Anchored.flatMap fun y => ?_) (sublist_zip_tail _)
  rw [Check.olderWording]
  split
  · exact .inr ⟨_, _, rfl⟩
  · split
    · exact .inr ⟨_, _, rfl⟩
    · exact .inl rfl

theorem anchored_constants : x.Anchored .constants (Check.constants x) x.tokens := by
  rw [Check.constants, constantsFrom_eq, List.filterMap_eq_flatMap_toList]
  refine LintContext.Anchored.mono (LintContext.Anchored.flatMap fun y => ?_) (sublist_zip_tail _)
  rw [constantFinding?]
  split
  · exact .inr ⟨_, _, rfl⟩
  · exact .inl rfl

theorem anchored_report {r : Rule} (h : r ≠ .complexity) : x.Anchored r (r.report x) x.tokens := by
  cases r with
  | undefinedNames => exact .map List.filter_sublist _ _
  | deprecatedNames => exact anchored_deprecatedNames x
  | modernWording => exact anchored_modernWording x
  | infiniteLoops => exact .map List.filter_sublist _ _
  | complexity => exact absurd rfl h
  | unusedNames =>
      have none : Rule.unusedNames.report x = [] := unusedNames_eq_nil x
      rw [none]
      exact .nil
  | constants => exact anchored_constants x
  | magicNumbers => exact .map List.filter_sublist _ _
  | naming => exact .map List.filter_sublist _ _
  | costlyCalls => exact .map (sublist_costlyTokens ..) _ _

/-- Complexity is reported once at most. -/
theorem report_complexity : Rule.complexity.report x = [] ∨
    Rule.complexity.report x = [Check.tooComplex x (Check.complexityScore x.tokens)] := by
  simp only [Rule.report, Rule.check, Check.complexity]
  cases x.options.maxComplexity.admits? (Check.complexityScore x.tokens) with
  | none => exact .inl rfl
  | some fits =>
      cases fits with
      | true => exact .inl rfl
      | false => exact .inr rfl

variable {x}

/-- A finding has the name and the severity of the rule that reports it. -/
theorem labels_of_mem_report {r : Rule} {d : Diagnostic} (h : d ∈ r.report x) :
    d.rule = r.id ∧ d.severity = r.severity := by
  by_cases hr : r = .complexity
  · subst hr
    rcases report_complexity x with none | one
    · rw [none] at h
      cases h
    · rw [one] at h
      rw [List.mem_singleton.mp h]
      exact ⟨rfl, rfl⟩
  · obtain ⟨t, -, message, suggestions, rfl⟩ := (anchored_report x hr).exists_token h
    exact ⟨rfl, rfl⟩

theorem rule_of_mem_report {r : Rule} {d : Diagnostic} (h : d ∈ r.report x) : d.rule = r.id :=
  (labels_of_mem_report h).1

theorem severity_of_mem_report {r : Rule} {d : Diagnostic} (h : d ∈ r.report x) :
    d.severity = r.severity := (labels_of_mem_report h).2

theorem pairwise_report (ordered : x.tokens.Pairwise Before) (r : Rule) :
    (r.report x).Pairwise Diagnostic.Precedes := by
  by_cases hr : r = .complexity
  · subst hr
    rcases report_complexity x with none | one
    · rw [none]
      exact .nil
    · rw [one]
      exact List.pairwise_singleton ..
  · exact (anchored_report x hr).pairwise ordered

end Rules
end MotionExpr
