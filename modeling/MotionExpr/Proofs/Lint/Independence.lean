import MotionExpr.Proofs.Lint.Anchors
import MotionExpr.Proofs.Value.Fields

/-!
The rules of a linter do not see each other. A run puts together what each rule reports alone,
so switching one off takes its findings away and no others, and a check that fails is one that
finds nothing. Strict mode acts on the findings only, one by one.
-/

namespace MotionExpr

open Token

theorem Rule.id_inj {r q : Rule} : r.id = q.id ↔ r = q := by
  refine ⟨fun h => ?_, fun h => h ▸ rfl⟩
  have same := congrArg Rule.ofId? h
  rw [Rule.ofId?_id, Rule.ofId?_id] at same
  exact Option.some.inj same

namespace LintOptions

/-- One rule switched off. -/
def without (o : LintOptions) (r : Rule) : LintOptions :=
  { o with rules := Value.setField o.rules r.id (.bool false) }

/-- One rule on, and all others off. -/
def only (o : LintOptions) (r : Rule) : LintOptions :=
  { o with rules := Rule.all.map fun q => (q.id, .bool (q == r)) }

/-- What becomes of a finding in the end. -/
def finish (o : LintOptions) (d : Diagnostic) : Diagnostic :=
  if o.strictMode.isTruthy then d.promote else d

theorem withRule_off (o : LintOptions) (r : Rule) :
    o.withRule r.id (.bool false) = .ok (o.without r) := by
  rw [withRule, Rule.ofId?_id]
  rfl

theorem isEnabled_without (o : LintOptions) (r q : Rule) :
    (o.without r).isEnabled q.id = (o.isEnabled q.id && q != r) := by
  rw [isEnabled, isEnabled, without, Value.field?_setField]
  by_cases h : q = r
  · rw [if_pos (Rule.id_inj.mpr h.symm), h, bne_self_eq_false, Bool.and_false]
    rfl
  · rw [if_neg fun hid => h (Rule.id_inj.mp hid).symm, bne_iff_ne.mpr h, Bool.and_true]

theorem rule_finish (o : LintOptions) (d : Diagnostic) : (o.finish d).rule = d.rule := by
  rw [finish]
  split <;> rfl

/-- A finding keeps the stamp of its rule. -/
theorem rule_of_mem_finished {o : LintOptions} {r : Rule} {x : LintContext} {d : Diagnostic}
    (h : d ∈ (r.report x).map o.finish) : d.rule = r.id := by
  obtain ⟨e, he, rfl⟩ := List.mem_map.mp h
  rw [rule_finish, rule_of_mem_report he]

end LintOptions

theorem mem_enabledRules {o : LintOptions} {r : Rule} :
    r ∈ Linter.enabledRules o ↔ o.isEnabled r.id = true := by
  rw [Linter.enabledRules, List.mem_filter, and_iff_right (Rule.mem_all r)]

namespace Linter

variable {o : LintOptions}

theorem enabledRules_without (o : LintOptions) (r : Rule) :
    enabledRules (o.without r) = (enabledRules o).filter (· != r) := by
  rw [enabledRules, enabledRules, List.filter_filter]
  refine List.filter_congr fun q _ => ?_
  rw [LintOptions.isEnabled_without, Bool.and_comm]

theorem enabledRules_only (o : LintOptions) (r : Rule) : enabledRules (o.only r) = [r] := by
  cases r <;> rfl

theorem nodup_enabledRules (o : LintOptions) : (enabledRules o).Nodup :=
  (by decide : Rule.all.Nodup).filter _

/-- A run goes from rule to rule, also in strict mode. -/
theorem run_eq (o : LintOptions) (x : LintContext) :
    run o x = (enabledRules o).flatMap fun r => (r.report x).map o.finish := by
  have finished : o.finish = if o.strictMode.isTruthy then (·.promote) else id := by
    funext d
    rw [LintOptions.finish]
    split <;> rfl
  rw [run, finished]
  split
  · rw [List.map_flatMap]
  · simp only [List.map_id]

theorem mem_run {x : LintContext} {d : Diagnostic} :
    d ∈ run o x ↔ ∃ r ∈ enabledRules o, ∃ e ∈ r.report x, o.finish e = d := by
  rw [run_eq, List.mem_flatMap]
  simp only [List.mem_map]

/-- Of the options, a check sees the limits only: not which rules are on, nor strict mode. -/
theorem report_context (r : Rule) (p : Profile) (source : Text) {o' : LintOptions}
    (complexity : o'.maxComplexity = o.maxComplexity)
    (deprecated : o'.allowDeprecated = o.allowDeprecated) :
    r.report (context p o' source) = r.report (context p o source) := by
  cases o
  cases o'
  subst complexity deprecated
  cases r with
  | modernWording =>
      simp only [Rule.report, Rule.check, Check.modernWording, wordingFrom_eq]
      rfl
  | constants =>
      simp only [Rule.report, Rule.check, Check.constants, constantsFrom_eq]
      rfl
  | _ => rfl

theorem lintWith_eq (l : Linter) (o : LintOptions) (source : Text) :
    l.lintWith o source = (enabledRules o).flatMap fun r =>
      (r.report (context l.profile o source)).map o.finish := run_eq o _

theorem lintWith_only (l : Linter) (o : LintOptions) (r : Rule) (source : Text) :
    l.lintWith (o.only r) source = (r.report (context l.profile o source)).map o.finish := by
  rw [lintWith_eq, enabledRules_only, List.flatMap_singleton,
    @report_context o r l.profile source (o.only r) rfl rfl]
  rfl

theorem lintWith_without (l : Linter) (o : LintOptions) (r : Rule) (source : Text) :
    l.lintWith (o.without r) source = (l.lintWith o source).filter (·.rule != r.id) := by
  rw [lintWith_eq, lintWith_eq, enabledRules_without, List.filter_flatMap]
  have reports (q : Rule) : (q.report (context l.profile (o.without r) source)).map (o.without r).finish =
      (q.report (context l.profile o source)).map o.finish := by
    rw [@report_context o q l.profile source (o.without r) rfl rfl]
    rfl
  simp only [reports]
  induction enabledRules o with
  | nil => rfl
  | cons q qs ih =>
      rw [List.flatMap_cons, ← ih]
      by_cases h : q = r
      · have gone : ((q.report (context l.profile o source)).map o.finish).filter (·.rule != r.id) = [] :=
          List.filter_eq_nil_iff.mpr fun d hd => by
            rw [LintOptions.rule_of_mem_finished hd, h, bne_self_eq_false]
            decide
        rw [gone, List.filter_cons_of_neg (by simp [h])]
        rfl
      · have kept : ((q.report (context l.profile o source)).map o.finish).filter (·.rule != r.id) =
            (q.report (context l.profile o source)).map o.finish :=
          List.filter_eq_self.mpr fun d hd => by
            rw [LintOptions.rule_of_mem_finished hd, bne_iff_ne]
            exact fun hid => h (Rule.id_inj.mp hid)
        rw [kept, List.filter_cons_of_pos (p := (· != r)) (bne_iff_ne.mpr h), List.flatMap_cons]

/-- What one of several gives, where the others give nothing. -/
theorem flatMap_of_one {α β : Type} [DecidableEq α] {a : α} {bs : List β} {as : List α}
    (distinct : as.Nodup) :
    (as.flatMap fun c => if c = a then bs else []) = if a ∈ as then bs else [] := by
  induction as with
  | nil => rfl
  | cons c as ih =>
      obtain ⟨fresh, distinct⟩ := List.nodup_cons.mp distinct
      rw [List.flatMap_cons, ih distinct]
      by_cases same : c = a
      · simp [same, same ▸ fresh]
      · simp [same, Ne.symm same]

/-- The findings of one rule among those of a run. -/
theorem filter_lintWith (l : Linter) (o : LintOptions) (r : Rule) (source : Text) :
    (l.lintWith o source).filter (·.rule == r.id) =
      if o.isEnabled r.id then (r.report (context l.profile o source)).map o.finish else [] := by
  have ofRule (q : Rule) : ((q.report (context l.profile o source)).map o.finish).filter
      (·.rule == r.id) =
        if q = r then (r.report (context l.profile o source)).map o.finish else [] := by
    by_cases same : q = r
    · rw [if_pos same, ← same, List.filter_eq_self]
      exact fun d hd => beq_iff_eq.mpr (LintOptions.rule_of_mem_finished hd)
    · rw [if_neg same, List.filter_eq_nil_iff]
      exact fun d hd hit => same (Rule.id_inj.mp
        ((LintOptions.rule_of_mem_finished hd).symm.trans (beq_iff_eq.mp hit)))
  rw [lintWith_eq, List.filter_flatMap]
  simp only [ofRule, flatMap_of_one (nodup_enabledRules o), mem_enabledRules]

/-- What a check contributes. -/
def reported {ε : Type} (found : Except ε (List Diagnostic)) : List Diagnostic :=
  found.toOption.getD []

theorem report_of_fails {r : Rule} {x : LintContext} (h : r.fails x = true) : r.report x = [] := by
  rw [Rule.fails] at h
  rw [Rule.report]
  cases found : r.check x with
  | ok _ => rw [found] at h; cases h
  | error _ => rfl

/-- A run with other checks in the place of those of the catalogue. -/
def runWith {ε : Type} (check : Rule → LintContext → Except ε (List Diagnostic)) (o : LintOptions)
    (x : LintContext) : List Diagnostic :=
  let found := (enabledRules o).flatMap fun r => reported (check r x)
  if o.strictMode.isTruthy then found.map (·.promote) else found

theorem lintWith_eq_runWith (l : Linter) (o : LintOptions) (source : Text) :
    l.lintWith o source = runWith Rule.check o (context l.profile o source) := by
  have reports (r : Rule) (x : LintContext) : r.report x = reported (r.check x) := by
    rw [Rule.report, reported]
    cases r.check x <;> rfl
  simp only [lintWith, run, runWith, reports]

/-- A check that fails is one that finds nothing. -/
theorem runWith_of_fails {ε : Type} {check : Rule → LintContext → Except ε (List Diagnostic)}
    {r : Rule} {x : LintContext} {fault : ε} (h : check r x = .error fault) (o : LintOptions) :
    runWith check o x = runWith (fun q => if q = r then fun _ => .ok [] else check q) o x := by
  have same (q : Rule) : reported (check q x) =
      reported ((if q = r then fun _ => .ok [] else check q : LintContext → Except ε (List Diagnostic)) x) := by
    by_cases hq : q = r
    · rw [if_pos hq, hq, h]
      rfl
    · rw [if_neg hq]
  rw [runWith, runWith]
  simp only [same]

/-- To switch a rule off that fails changes nothing. -/
theorem lintWith_of_fails {l : Linter} {r : Rule} {source : Text}
    (h : r.fails (context l.profile o source) = true) :
    l.lintWith (o.without r) source = l.lintWith o source := by
  rw [lintWith_without, List.filter_eq_self]
  intro d hd
  obtain ⟨q, -, e, he, rfl⟩ := mem_run.mp hd
  rw [LintOptions.rule_finish, rule_of_mem_report he, bne_iff_ne]
  intro hid
  rw [Rule.id_inj.mp hid, report_of_fails h] at he
  cases he

/-- Each rule adds what it reports alone, in the order of the catalogue; to switch one off takes
away what it stamped, a check that fails adds nothing, and strict mode turns hints into warnings. -/
theorem rules_independent (l : Linter) (o : LintOptions) (source : Text) :
    (∀ r : Rule, ∃ off, o.withRule r.id (.bool false) = .ok off ∧
      l.lintWith off source = (l.lintWith o source).filter (·.rule != r.id) ∧
      (r.fails (context l.profile o source) = true → l.lintWith off source = l.lintWith o source)) ∧
    l.lintWith o source =
      (Rule.all.filter fun r => o.isEnabled r.id).flatMap (fun r => l.lintWith (o.only r) source) ∧
    (l.lintWith o source = runWith Rule.check o (context l.profile o source) ∧
      ∀ (ε : Type) (check : Rule → LintContext → Except ε (List Diagnostic)) (r : Rule)
        (x : LintContext) (fault : ε), check r x = .error fault →
        runWith check o x = runWith (fun q => if q = r then fun _ => .ok [] else check q) o x) ∧
    ∀ strict : Value, l.lintWith { o with strictMode := strict } source =
      if strict.isTruthy then
        (l.lintWith { o with strictMode := .bool false } source).map fun d =>
          { d with severity := if d.severity = .info then .warning else d.severity }
      else l.lintWith { o with strictMode := .bool false } source := by
  refine ⟨fun r => ⟨_, o.withRule_off r, l.lintWith_without o r source, lintWith_of_fails⟩, ?_,
    ⟨l.lintWith_eq_runWith o source, fun ε check r x fault h => runWith_of_fails h o⟩, ?_⟩
  · simp only [lintWith_only]
    exact l.lintWith_eq o source
  · intro strict
    have promote (d : Diagnostic) : d.promote =
        { d with severity := if d.severity = .info then .warning else d.severity } := by
      cases hd : d.severity <;> simp [Diagnostic.promote, Severity.promote, hd]
    have reports (v : Value) (r : Rule) :
        r.report (context l.profile { o with strictMode := v } source) =
          r.report (context l.profile o source) := report_context r l.profile source rfl rfl
    have plain : l.lintWith { o with strictMode := .bool false } source =
        (enabledRules o).flatMap fun r => r.report (context l.profile o source) := by
      rw [lintWith_eq]
      simp only [reports]
      exact List.flatMap_congr fun r _ => List.map_id _
    rw [plain, lintWith_eq]
    simp only [reports]
    cases hs : strict.isTruthy with
    | true =>
        have finished : LintOptions.finish { o with strictMode := strict } =
            fun d => { d with severity := if d.severity = .info then .warning else d.severity } := by
          funext d
          rw [LintOptions.finish, if_pos hs, promote]
        rw [if_pos rfl, List.map_flatMap, finished]
        rfl
    | false =>
        have finished : LintOptions.finish { o with strictMode := strict } = id := by
          funext d
          rw [LintOptions.finish, if_neg (Bool.eq_false_iff.mp hs)]
          rfl
        simp only [finished, List.map_id]
        rfl

/-- A limit that is no number: the check of complexity fails, and so would any in its place. -/
theorem rules_independent_textual_limit :
    ∃ off, LintOptions.withRule { maxComplexity := .string "ten" } Rule.complexity.id (.bool false) = .ok off ∧
      lintWith {} off "y = 1".toList = lintWith {} { maxComplexity := .string "ten" } "y = 1".toList ∧
      runWith Rule.check { maxComplexity := .string "ten" }
          (context Profile.standard { maxComplexity := .string "ten" } "y = 1".toList) =
        runWith (fun q => if q = .complexity then fun _ => .ok [] else Rule.check q)
          { maxComplexity := .string "ten" }
          (context Profile.standard { maxComplexity := .string "ten" } "y = 1".toList) := by
  have independent := rules_independent {} { maxComplexity := .string "ten" } "y = 1".toList
  obtain ⟨off, made, -, same⟩ := independent.1 .complexity
  exact ⟨off, made, same rfl, independent.2.2.1.2 _ Rule.check .complexity _ .limitNotNumber rfl⟩

end Linter
end MotionExpr
