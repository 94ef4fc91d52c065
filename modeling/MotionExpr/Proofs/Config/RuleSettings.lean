import MotionExpr.Proofs.Config.Settings
import MotionExpr.Proofs.Toml.Keys

/-!
Lint settings. The rules of the project are laid over the catalogue, so the rule map has the rules of
the catalogue and no others; every other option is what stands under its own key. What stands under
other keys is not seen at all.
-/

namespace MotionExpr

open Value

theorem Rule.field?_defaults (id : String) :
    field? Rule.defaults id = (Rule.ofId? id).map fun r => .bool r.onByDefault := by
  rw [field?, Rule.defaults, List.find?_map, Option.map_map]
  rfl

theorem Rule.id_of_ofId? {id : String} {r : Rule} (h : Rule.ofId? id = some r) : r.id = id :=
  beq_iff_eq.mp (List.find?_some (p := fun r : Rule => r.id == id) h)

theorem Rule.keys_defaults : keys Rule.defaults = Rule.all.map Rule.id := by
  rw [keys, Rule.defaults, List.map_map]
  rfl

theorem LintOptions.toFields_inj {o o' : LintOptions} (h : o.toFields = o'.toFields) : o = o' := by
  cases o
  cases o'
  simpa [toFields] using h

namespace ProjectConfig

theorem isKnownRule_iff {id : String} : isKnownRule id = true ↔ id ∈ keys Rule.defaults := by
  rw [isKnownRule, ← not_iff_not, ← field?_eq_none_iff, Rule.field?_defaults]
  simp

theorem takes_lintOptions : Takes LintOptions.set LintOptions.toFields lintKeys := by
  intro o key v known
  have cases : key ∈ ["max_complexity", "max_line_length", "allow_deprecated", "strict_mode"] := known
  simp only [List.mem_cons, List.not_mem_nil, or_false] at cases
  obtain rfl | rfl | rfl | rfl := cases <;> exact ⟨_, rfl, rfl⟩

section Options

variable (c : ProjectConfig)

/-- Each known key is taken, and the options are what is laid over the defaults. -/
theorem lintOptions_result :
    let known := (known "LintingOptions" lintKeys c.lint).result
    known.foldlM (fun (o : LintOptions) f => o.set f.1 f.2) { rules := c.ruleMap } =
        .ok c.lintOptions.result ∧
      c.lintOptions.result.toFields = overlay (LintOptions.toFields { rules := c.ruleMap }) known := by
  intro known
  obtain ⟨o, taken, seen⟩ := takes_lintOptions.all
    (mem_names_of_known "LintingOptions" lintKeys c.lint) { rules := c.ruleMap }
  have same : c.lintOptions.result = o := foldl_getD_of_foldlM taken
  rw [same]
  exact ⟨taken, seen⟩

theorem keys_ruleMap : keys c.ruleMap = Rule.all.map Rule.id := by
  rw [ruleMap, keys_overlay, Rule.keys_defaults]
  intro key h
  obtain ⟨f, hf, rfl⟩ := List.mem_map.mp h
  exact isKnownRule_iff.mp (List.mem_filter.mp hf).2

variable {c}

theorem field?_ruleMap (once : (keys c.rules).Nodup) (id : String) : field? c.ruleMap id =
    (Rule.ofId? id).bind fun r => (field? c.rules id).or (some (.bool r.onByDefault)) := by
  rw [ruleMap, field?_overlay _ (nodup_filter once _), field?_filter, Rule.field?_defaults, isKnownRule]
  cases Rule.ofId? id <;> rfl

theorem field?_lintOptions (once : (keys c.lint).Nodup) (key : String) :
    field? c.lintOptions.result.toFields key = (if lintKeys.contains key then field? c.lint key else none).or
      (field? (LintOptions.toFields { rules := c.ruleMap }) key) := by
  rw [c.lintOptions_result.2, field?_overlay _ (nodup_known _ _ _ once), field?_known]

theorem rules_lintOptions (once : (keys c.lint).Nodup) : c.lintOptions.result.rules = c.ruleMap := by
  have here := field?_lintOptions once "rules"
  rw [if_neg (by decide), Option.none_or] at here
  exact Value.table.inj (Option.some.inj here)

end Options

section Document

variable {document : Fields} {path : String}

/-- A rule as a document sets it. -/
theorem field?_rules_of_document (once : (Value.table document).EachKeyOnce) (id : String) :
    field? (loaded document path).lintOptions.result.rules id = (Rule.ofId? id).bind fun r =>
      (setting? document ["lint", "rules", id]).or (some (.bool r.onByDefault)) := by
  rw [rules_lintOptions (nodup_lint once), field?_ruleMap (nodup_rules once), field?_rules]

theorem keys_rules_of_document (once : (Value.table document).EachKeyOnce) :
    keys (loaded document path).lintOptions.result.rules = Rule.all.map Rule.id := by
  rw [rules_lintOptions (nodup_lint once), keys_ruleMap]

/-- Another option as a document sets it. -/
theorem field?_options_of_document (once : (Value.table document).EachKeyOnce) {key : String}
    (known : key ∈ lintKeys) : field? (loaded document path).lintOptions.result.toFields key =
      (setting? document ["lint", key]).or (field? (LintOptions.toFields {}) key) := by
  have cases : key ∈ ["max_complexity", "max_line_length", "allow_deprecated", "strict_mode"] := known
  rw [field?_lintOptions (nodup_lint once), if_pos (List.contains_iff_mem.mpr known)]
  simp only [List.mem_cons, List.not_mem_nil, or_false] at cases
  obtain rfl | rfl | rfl | rfl := cases <;> rw [field?_lint (by decide) (by decide)] <;> rfl

/-- Options with the same rules and the same other fields. -/
theorem options_ext {o o' : LintOptions} (rules : o.rules = o'.rules)
    (others : ∀ key ∈ lintKeys, field? o.toFields key = field? o'.toFields key) : o = o' := by
  refine LintOptions.toFields_inj (eq_of_field? rfl (by show LintOptions.keys.Nodup; decide) fun key => ?_)
  by_cases known : key ∈ LintOptions.keys
  · by_cases same : key = "rules"
    · subst same
      exact congrArg (some ∘ Value.table) rules
    · exact others key (List.mem_filter.mpr ⟨known, bne_iff_ne.mpr same⟩)
  · have absent (o : LintOptions) : field? o.toFields key = none := field?_eq_none_iff.mpr known
    rw [absent, absent]

end Document

/-- How a document sets the rules and the other lint options. Loading fails just where a name of the
list of additional names cannot be written. Otherwise the rule map has the rules of the catalogue, a
rule is on as the document says where all on the way to it are tables, and as the catalogue says
elsewhere, every other option is what stands under its key, and no other document that says the same of
these is told apart. -/
theorem rule_settings_resolve {document : Fields} (once : (Value.table document).EachKeyOnce)
    (path : String) :
    ((∃ fault, (ofDocument document path).result = .error fault) ↔
      ∃ v ∈ customItems document, v.isWritable = false) ∧
    ∀ c, (ofDocument document path).result = .ok c →
      let o := c.lintOptions.result
      keys o.rules = Rule.all.map Rule.id ∧
      (∀ r : Rule, o.isEnabled r.id =
        ((setting? document ["lint", "rules", r.id]).map Value.isTruthy).getD r.onByDefault) ∧
      (∀ id, Rule.ofId? id = none → field? o.rules id = none ∧ o.isEnabled id = false) ∧
      (∀ key ∈ lintKeys, field? o.toFields key =
        (setting? document ["lint", key]).or (field? (LintOptions.toFields {}) key)) ∧
      ∀ other, (Value.table other).EachKeyOnce →
        (∀ key ∈ lintKeys, setting? other ["lint", key] = setting? document ["lint", key]) →
        (∀ r : Rule, setting? other ["lint", "rules", r.id] = setting? document ["lint", "rules", r.id]) →
        ∀ c', (ofDocument other path).result = .ok c' → c'.lintOptions.result = o := by
  refine ⟨?_, ?_⟩
  · simp only [ofDocument_eq_error_iff, exists_eq_left]
  · intro c hc o
    obtain rfl := eq_loaded document path hc
    refine ⟨keys_rules_of_document once, fun r => ?_, fun id unknown => ?_,
      fun key known => field?_options_of_document once known, ?_⟩
    · rw [LintOptions.isEnabled, field?_rules_of_document once, LintOptions.fallback, Rule.ofId?_id]
      cases setting? document ["lint", "rules", r.id] <;> rfl
    · have absent : field? o.rules id = none := by
        rw [field?_rules_of_document once, unknown, Option.bind_none]
      rw [LintOptions.isEnabled, absent, LintOptions.fallback, unknown]
      exact ⟨rfl, rfl⟩
    · intro other again same sameRules c' hc'
      obtain rfl := eq_loaded other path hc'
      refine options_ext (eq_of_field? ?_ ?_ fun id => ?_) fun key known => ?_
      · rw [keys_rules_of_document again, keys_rules_of_document once]
      · rw [keys_rules_of_document again]
        decide
      · rw [field?_rules_of_document again, field?_rules_of_document once]
        refine Option.bind_congr fun r hr => ?_
        rw [← Rule.id_of_ofId? hr, sameRules r]
      · rw [field?_options_of_document again known, field?_options_of_document once known, same key known]

/-- Additional names that are no table, an unknown rule and an unknown key; and an additional name with
too many digits. -/
theorem rule_settings_resolve_malformed :
    let source := ("[tool.aexpr.lint]\nmax_complexity = 5\nbuiltins = 3\nbogus = 1\n" ++
      "[tool.aexpr.lint.rules]\nno-magic-numbers = 1\nprefer-const = ''\nother = true\n").toList
    let overlong := "[tool.aexpr.lint]\nmax_complexity = 5\nbuiltins.custom = [0x".toList ++
      List.replicate 3600 'f' ++ [']']
    (∃ document c, Toml.parse source = .ok document ∧
      (ofDocument document ".aexpr.toml").result = .ok c ∧
      let o := c.lintOptions.result
      (o.isEnabled "no-magic-numbers" = true ∧ o.isEnabled "prefer-const" = false ∧
        o.isEnabled "max-complexity" = true ∧ o.isEnabled "other" = false) ∧
      (field? o.toFields "max_complexity").bind Value.toInt? = some 5) ∧
    ∃ document fault, Toml.parse overlong = .ok document ∧
      (ofDocument document ".aexpr.toml").result = .error fault := by
  intro source overlong
  refine ⟨?_, ?_⟩
  · obtain ⟨document, read, checked⟩ := Toml.exists_parse source (p := fun document =>
      (customItems document).all (·.isWritable) &&
      (setting? document ["lint", "rules", "no-magic-numbers"]).map (·.isTruthy) == some true &&
      (setting? document ["lint", "rules", "prefer-const"]).map (·.isTruthy) == some false &&
      (setting? document ["lint", "rules", "max-complexity"]).isNone &&
      (setting? document ["lint", "max_complexity"]).bind (·.toInt?) == some 5) (by decide +kernel)
    simp only [Bool.and_eq_true, beq_iff_eq, Option.isNone_iff_eq_none] at checked
    obtain ⟨⟨⟨⟨writable, numbers⟩, constants⟩, complexity⟩, limit⟩ := checked
    have loads : (ofDocument document ".aexpr.toml").result = .ok (loaded document ".aexpr.toml") := by
      rw [ofDocument_result, if_pos writable]
    obtain ⟨-, enabled, unknown, others, -⟩ :=
      (rule_settings_resolve (Toml.eachKeyOnce_parse read) ".aexpr.toml").2 _ loads
    refine ⟨document, _, read, loads, ⟨?_, ?_, ?_, ?_⟩, ?_⟩
    · exact (enabled .magicNumbers).trans (by rw [Rule.id, numbers]; rfl)
    · exact (enabled .constants).trans (by rw [Rule.id, constants]; rfl)
    · exact (enabled .complexity).trans (by rw [Rule.id, complexity]; rfl)
    · exact (unknown "other" (by decide)).2
    · obtain ⟨v, hv, five⟩ := Option.bind_eq_some_iff.mp limit
      rw [others "max_complexity" (by decide), hv]
      exact five
  · obtain ⟨document, read, checked⟩ := Toml.exists_parse overlong
      (p := fun document => (customItems document).any fun v => !v.isWritable) (by decide +kernel)
    have unwritable : ∃ v ∈ customItems document, v.isWritable = false := by simpa using checked
    obtain ⟨fault, failed⟩ :=
      (rule_settings_resolve (Toml.eachKeyOnce_parse read) ".aexpr.toml").1.mpr unwritable
    exact ⟨document, fault, read, failed⟩

end ProjectConfig
end MotionExpr
