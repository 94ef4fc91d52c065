import MotionExpr.Proofs.Command.FormatFiles
import MotionExpr.Proofs.Config.RuleSettings

/-!
What a document can make fail. Loading fails for a name that cannot be written. Lint options and
profiles are made of whatever is loaded. Format settings are refused for a bad value, and they break
where a size is compared that is no number.
-/

namespace MotionExpr

open Value

/-- Truth values count as numbers. -/
def Value.isNumber : Value → Bool
  | bool _ | int _ | float _ => true
  | _ => false

theorem Value.lessThan?_eq_none_iff {v : Value} {bound : Int} :
    v.lessThan? bound = none ↔ v.isNumber = false := by
  cases v <;> simp [lessThan?, toInt?, isNumber]

namespace FormatSettings

variable {s : FormatSettings}

theorem readIndentStyle_eq_ok_iff {v : Value} {style : IndentStyle} :
    readIndentStyle v = .ok style ↔ v = .string style.label := by
  refine ⟨fun h => ?_, fun h => h ▸ readIndentStyle_label style⟩
  rw [readIndentStyle.eq_def] at h
  split at h <;> cases h <;> rfl

theorem readQuoteStyle_eq_ok_iff {v : Value} {style : QuoteStyle} :
    readQuoteStyle v = .ok style ↔ v = .string style.label := by
  refine ⟨fun h => ?_, fun h => h ▸ readQuoteStyle_label style⟩
  rw [readQuoteStyle.eq_def] at h
  split at h <;> cases h <;> rfl

/-- A style that is none is a bad value. -/
theorem isBadValue_styleFault {fault : Text → SettingFault} (bad : ∀ given, (fault given).isBadValue = true)
    (v : Value) : (styleFault fault v).isBadValue = true := by
  rw [styleFault]
  split
  · exact bad _
  · rfl

theorem isBadValue_of_readIndentStyle {v : Value} {fault : SettingFault}
    (h : readIndentStyle v = .error fault) : fault.isBadValue = true := by
  rw [readIndentStyle.eq_def] at h
  split at h <;> cases h
  exact isBadValue_styleFault (fun _ => rfl) v

theorem isBadValue_of_readQuoteStyle {v : Value} {fault : SettingFault}
    (h : readQuoteStyle v = .error fault) : fault.isBadValue = true := by
  rw [readQuoteStyle.eq_def] at h
  split at h <;> cases h
  exact isBadValue_styleFault (fun _ => rfl) v

/-- Both styles are accepted, and a size that is compared is no number: the indent size, or the tab
size behind an indent size that is not below zero. -/
structure Incomparable (s : FormatSettings) : Prop where
  indentStyle : ∃ style : IndentStyle, s.indentStyle = .string style.label
  quoteStyle : ∃ style : QuoteStyle, s.quoteStyle = .string style.label
  size : s.indentSize.isNumber = false ∨
    s.indentSize.lessThan? 0 = some false ∧ s.tabSize.isNumber = false

/-- Where the styles are accepted, the sizes decide. -/
theorem validate_of_styles {indent : IndentStyle} {quote : QuoteStyle}
    (hindent : readIndentStyle s.indentStyle = .ok indent)
    (hquote : readQuoteStyle s.quoteStyle = .ok quote) : s.validate =
      match s.indentSize.lessThan? 0, s.tabSize.lessThan? 1 with
      | none, _ => .error (.notNumber "indent_size")
      | some true, _ => .error .sizes
      | some false, none => .error (.notNumber "tab_size")
      | some false, some true => .error .sizes
      | some false, some false => .ok () := by
  rw [validate, hindent, hquote, below, below]
  cases s.indentSize.lessThan? 0 with
  | none => rfl
  | some narrow =>
      cases narrow with
      | true => rfl
      | false =>
          cases s.tabSize.lessThan? 1 with
          | none => rfl
          | some narrow => cases narrow <;> rfl

/-- The check breaks just where a size is compared that is no number. -/
theorem breaks_iff : (∃ fault, s.validate = .error fault ∧ fault.isBadValue = false) ↔
    s.Incomparable := by
  constructor
  · rintro ⟨fault, broken, other⟩
    have indent : ∃ style, readIndentStyle s.indentStyle = .ok style := by
      cases read : readIndentStyle s.indentStyle with
      | ok style => exact ⟨style, rfl⟩
      | error bad =>
          rw [validate, read] at broken
          cases broken
          rw [isBadValue_of_readIndentStyle read] at other
          cases other
    obtain ⟨indent, hindent⟩ := indent
    have quote : ∃ style, readQuoteStyle s.quoteStyle = .ok style := by
      cases read : readQuoteStyle s.quoteStyle with
      | ok style => exact ⟨style, rfl⟩
      | error bad =>
          rw [validate, hindent, read] at broken
          cases broken
          rw [isBadValue_of_readQuoteStyle read] at other
          cases other
    obtain ⟨quote, hquote⟩ := quote
    refine ⟨⟨indent, readIndentStyle_eq_ok_iff.mp hindent⟩,
      ⟨quote, readQuoteStyle_eq_ok_iff.mp hquote⟩, ?_⟩
    rw [validate_of_styles hindent hquote] at broken
    split at broken
    · next noNumber => exact .inl (lessThan?_eq_none_iff.mp noNumber)
    · cases broken
      cases other
    · next wide noNumber => exact .inr ⟨wide, lessThan?_eq_none_iff.mp noNumber⟩
    · cases broken
      cases other
    · cases broken
  · rintro ⟨⟨indent, hindent⟩, ⟨quote, hquote⟩, size⟩
    rw [validate_of_styles (readIndentStyle_eq_ok_iff.mpr hindent) (readQuoteStyle_eq_ok_iff.mpr hquote)]
    rcases size with noNumber | ⟨wide, noNumber⟩
    · rw [lessThan?_eq_none_iff.mpr noNumber]
      exact ⟨_, rfl, rfl⟩
    · rw [wide, lessThan?_eq_none_iff.mpr noNumber]
      exact ⟨_, rfl, rfl⟩

theorem takes_formatSettings : Takes FormatSettings.set toFields FormatSettings.keys := by
  intro s key v known
  simp only [FormatSettings.keys, List.mem_cons, List.not_mem_nil, or_false] at known
  obtain rfl | rfl | rfl | rfl | rfl | rfl | rfl | rfl | rfl | rfl := known <;> exact ⟨_, rfl, rfl⟩

end FormatSettings

/-- Settings that were accepted make a plan, so the command breaks down with them just where they
break. Behind a plan, what the files hold may give it up as well, but with another fault. -/
theorem Command.formatWith_of_accepted {settings : Except SettingFault FormatSettings}
    (accepted : ∀ s, settings = .ok s → s.validate = .ok ()) (a : FormatArguments) (log : Log)
    (store : FileStore) :
    let outcome := formatWith a settings log store
    (outcome.exit = 2 ↔ ∃ fault, settings = .error fault ∧ fault.isBadValue = true) ∧
    ((∃ fault, outcome.breakdown = some (.settings fault)) ↔
      ∃ fault, settings = .error fault ∧ fault.isBadValue = false) ∧
    (outcome.breakdown.isSome = true ↔
      (∃ fault, settings = .error fault ∧ fault.isBadValue = false) ∨
        (∃ s, settings = .ok s) ∧ ∃ p ∈ a.files, ¬Endures store p) := by
  cases settings with
  | ok s =>
      have plan : s.plan = .ok s.planOf := by
        rw [FormatSettings.plan, accepted s rfl]
        rfl
      have run : formatWith a (.ok s) log store = formatStore a s.planOf log store := by
        rw [formatWith, Except.bind, plan]
      rw [run]
      refine ⟨iff_of_false ?_ (by simp), iff_of_false ?_ (by simp), ?_⟩
      · rw [formatStore]
        split
        · exact (by decide : (1 : Nat) ≠ 2)
        · dsimp only
          split <;> decide
      · rintro ⟨fault, broken⟩
        rw [formatStore] at broken
        split at broken
        · next b given =>
            obtain ⟨path, -, unread, here⟩ := exists_expected_of_results given
            cases unread <;> cases here <;> cases broken
        · cases broken
      · simp [isSome_breakdown_formatStore_iff]
  | error fault =>
      rw [formatWith, Except.bind]
      cases bad : fault.isBadValue with
      | true => simp [bad]
      | false => simp [bad, givenUp]

namespace ProjectConfig

/-- The format settings of the project, with the defaults for those that it leaves out. -/
theorem exists_formatSettings {c : ProjectConfig} (once : (keys c.format).Nodup) :
    ∃ given : FormatSettings,
      (∀ key ∈ FormatSettings.keys, field? given.toFields key =
        (field? c.format key).or (field? (FormatSettings.toFields {}) key)) ∧
      c.formatSettings.result = given.validate.map fun _ => given := by
  let known := (known "FormattingOptions" FormatSettings.keys c.format).result
  obtain ⟨given, taken, seen⟩ := FormatSettings.takes_formatSettings.all
    (mem_names_of_known "FormattingOptions" FormatSettings.keys c.format) {}
  refine ⟨given, fun key hkey => ?_, ?_⟩
  · rw [seen, field?_overlay _ (nodup_known _ _ _ once), field?_known,
      if_pos (List.contains_iff_mem.mpr hkey)]
  · rw [formatSettings]
    dsimp only
    rw [FormatSettings.withChanges, taken]
    show (given.validate >>= fun _ => pure given) = _
    cases given.validate <;> rfl

/-- What a document can make fail, whatever its values are. Loading fails for an additional name that
cannot be written and for nothing else. Then each lint option that is known is taken, and the profile
has the additional names. The format settings are those that stand under their keys; they are accepted,
refused for a bad value, which ends the command with exit code two, or they break at a size that is no
number, and the command breaks down with them. With settings that are accepted it breaks down only at a
file that cannot be read for another reason than the system's. -/
theorem settings_break_iff {document : Fields} (once : (Value.table document).EachKeyOnce)
    (path : String) :
    (∀ fault, (ofDocument document path).result = .error fault ↔
      fault = .unwritableName ∧ ∃ v ∈ customItems document, v.isWritable = false) ∧
    ∀ c, (ofDocument document path).result = .ok c →
      (known "LintingOptions" lintKeys c.lint).result.foldlM
          (fun (o : LintOptions) f => o.set f.1 f.2) { rules := c.ruleMap } =
        .ok c.lintOptions.result ∧
      c.profile = (if (customItems document).isEmpty then Profile.standard
        else Profile.standard.withBuiltins ((customItems document).map (·.text))) ∧
      ∃ given : FormatSettings,
        (∀ key ∈ FormatSettings.keys, field? given.toFields key =
          (setting? document ["format", key]).or (field? (FormatSettings.toFields {}) key)) ∧
        c.formatSettings.result = (given.validate.map fun _ => given) ∧
        ((∃ fault, c.formatSettings.result = .error fault ∧ fault.isBadValue = false) ↔
          given.Incomparable) ∧
        ∀ a log store,
          let outcome := Command.formatWith a c.formatSettings.result log store
          (outcome.exit = 2 ↔
            ∃ fault, c.formatSettings.result = .error fault ∧ fault.isBadValue = true) ∧
          ((∃ fault, outcome.breakdown = some (.settings fault)) ↔ given.Incomparable) ∧
          (outcome.breakdown.isSome = true ↔ given.Incomparable ∨
            (∃ s, c.formatSettings.result = .ok s) ∧ ∃ p ∈ a.files, ¬Command.Endures store p) := by
  refine ⟨fun fault => ofDocument_eq_error_iff document path, fun c hc => ?_⟩
  obtain rfl := eq_loaded document path hc
  obtain ⟨given, fields, result⟩ := exists_formatSettings (@nodup_format document path once)
  have breaks : (∃ fault, (loaded document path).formatSettings.result = .error fault ∧
      fault.isBadValue = false) ↔ given.Incomparable := by
    rw [result, ← FormatSettings.breaks_iff]
    cases given.validate <;> simp [Except.map]
  have accepted : ∀ s, (loaded document path).formatSettings.result = .ok s →
      s.validate = .ok () := by
    intro s hs
    rw [result] at hs
    obtain ⟨_, valid, rfl⟩ := map_eq_ok_iff.mp hs
    exact valid
  refine ⟨(lintOptions_result _).1, ?_, given, fun key hkey => ?_, result, breaks,
    fun a log store => ?_⟩
  · rw [profile, isStandardProfile, loaded, List.isEmpty_map]
  · rw [fields key hkey, field?_format]
  · obtain ⟨refused, broken, any⟩ := Command.formatWith_of_accepted accepted a log store
    exact ⟨refused, broken.trans breaks, any.trans (or_congr_left breaks)⟩

/-- An indent size that is a text: no bad value is reported, and the command breaks down. -/
theorem settings_break_iff_textual_size :
    let source := "[tool.aexpr.format]\nindent_size = 'x'\n".toList
    ∃ document c, Toml.parse source = .ok document ∧
      (ofDocument document ".aexpr.toml").result = .ok c ∧
      (∃ fault, c.formatSettings.result = .error fault ∧ fault.isBadValue = false) ∧
      ∀ a log store, ∃ fault,
        (Command.formatWith a c.formatSettings.result log store).breakdown = some (.settings fault) := by
  intro source
  obtain ⟨document, read, checked⟩ := Toml.exists_parse source (p := fun document =>
    (customItems document).all (·.isWritable) &&
    (setting? document ["format", "indent_style"]).isNone &&
    (setting? document ["format", "quote_style"]).isNone &&
    (setting? document ["format", "indent_size"]).any (!·.isNumber)) (by decide +kernel)
  simp only [Bool.and_eq_true, Option.isNone_iff_eq_none] at checked
  obtain ⟨⟨⟨writable, noIndent⟩, noQuote⟩, size⟩ := checked
  have loads : (ofDocument document ".aexpr.toml").result = .ok (loaded document ".aexpr.toml") := by
    rw [ofDocument_result, if_pos writable]
  obtain ⟨-, -, given, fields, -, breaks, commands⟩ :=
    (settings_break_iff (Toml.eachKeyOnce_parse read) ".aexpr.toml").2 _ loads
  have incomparable : given.Incomparable := by
    refine ⟨⟨.spaces, ?_⟩, ⟨.double, ?_⟩, .inl ?_⟩
    · have here := fields "indent_style" (by decide)
      rw [noIndent] at here
      exact Option.some.inj here
    · have here := fields "quote_style" (by decide)
      rw [noQuote] at here
      exact Option.some.inj here
    · have here := fields "indent_size" (by decide)
      cases there : setting? document ["format", "indent_size"] with
      | none =>
          rw [there] at size
          cases size
      | some v =>
          rw [there] at here size
          obtain rfl : given.indentSize = v := Option.some.inj here
          simpa using size
  exact ⟨document, _, read, loads, breaks.mpr incomparable, fun a log store =>
    (commands a log store).2.1.mpr incomparable⟩

end ProjectConfig
end MotionExpr
